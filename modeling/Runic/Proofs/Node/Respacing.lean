import Runic.Proofs.Node.Abreast
import Runic.Proofs.Node.Parsing

/-!
# Layout does not matter

Beyond a single space or a gap, layout does not matter to a reader: how much of it there is, whether
comments are in it and what stands at the two ends of a source.

* `outline` — a source without the places of its tokens and the texts of its separators.
* `Parse.agree_expr` — **readers of the same symbols do alike**, with one lemma for each, by
  recursion on the budget.
* `parse_respaced` — sources with the same outline are read alike.
-/

namespace Runic

open Runic.Symbol (mark ace gap)
open Node (bare bareAll)

namespace Parse

open Cursor (Abreast)

variable {α : Type} {n : Nat} {post : Nat → α → α → Prop}

/-! ## Readers that need an expression -/

lemma starves_endOfInput : Starves (endOfInput : Parse α) :=
  .peek fun _ _ _ => complains_fail

lemma starves_operand (budget : Nat) : Starves (operand budget) := by
  cases budget with
  | zero =>
      rw [operand]
      exact starves_endOfInput
  | succ budget =>
      intro c hc
      obtain ⟨d, hbump, -⟩ := bump_of_spent hc
      unfold Complains
      rw [operand]
      simp only [Attempt.bind_apply, hbump]
      rcases hc.kind with hkind | hkind
      · rw [hkind]
        exact ⟨_, _, _, rfl⟩
      · cases hk : c.current.kind with
        | ace | gap => exact ⟨_, _, _, rfl⟩
        | _ =>
            rw [hk] at hkind
            cases hkind

lemma starves_expr (budget : Nat) : Starves (expr budget) := by
  cases budget with
  | zero =>
      rw [expr]
      exact starves_endOfInput
  | succ budget =>
      rw [expr]
      exact .peek fun _ => (starves_operand budget).bind

lemma starves_callPairs (budget : Nat) : Starves (callPairs budget) := by
  cases budget with
  | zero =>
      rw [callPairs]
      exact starves_endOfInput
  | succ budget =>
      rw [callPairs]
      exact (starves_expr budget).bind

lemma starves_cons (budget : Nat) : Starves (cons budget) := by
  cases budget with
  | zero =>
      rw [cons]
      exact starves_endOfInput
  | succ budget =>
      rw [cons]
      exact .peek fun _ => (starves_expr budget).bind

lemma starves_wideList (budget : Nat) : Starves (wideList budget) := by
  cases budget with
  | zero =>
      rw [wideList]
      exact starves_endOfInput
  | succ budget =>
      rw [wideList]
      exact (starves_expr budget).bind

lemma starves_wideFixed (budget count : Nat) : Starves (wideFixed budget (count + 1)) := by
  cases budget with
  | zero =>
      rw [wideFixed]
      exact starves_endOfInput
  | succ budget =>
      cases count with
      | zero =>
          rw [wideFixed]
          exact (starves_expr budget).bind
      | succ count =>
          rw [wideFixed]
          exact (starves_expr budget).bind

lemma starves_widePairs (budget : Nat) (s : Signature) : Starves (widePairs budget s) := by
  cases budget with
  | zero =>
      rw [widePairs]
      exact starves_endOfInput
  | succ budget =>
      rw [widePairs]
      exact (starves_expr budget).bind

/-! ## Readers in parts -/

/-- What `chain` does with a label `left`, the token `mark` behind it and the operand `right` behind
that. -/
def labelled (budget start : Nat) (left : Node) (mark : Token) (right : Node) : Parse Node :=
  match left with
  | .face name _ => do chain budget start (.faced name right (← spanFrom start))
  | _ => fail mark.span .labelNotFace

lemma chain_succ (budget start : Nat) (left : Node) :
    chain (budget + 1) start left = (do
      let mark ← peek
      if mark.kind = .mark .col then
        let _ ← bump
        let right ← operand budget
        chain budget start (← applied .tisgal [left, right] start)
      else if mark.kind = .mark .tis then
        let _ ← bump
        let right ← operand budget
        labelled budget start left mark right
      else
        return left) := by
  rw [chain]
  congr 1
  funext mark
  split
  · next hk => rw [if_pos hk]
  · next hk =>
      rw [if_neg (by simp [hk]), if_pos hk]
      rfl
  · next hcol htis => rw [if_neg hcol, if_neg htis]

/-- What `tallUntil` does behind the gap in front of an item or a closer. -/
def tallItem (budget : Nat) (closer : Kind) (rune : Rune) (span : Span) : Parse (List Node) := do
  let token ← peek
  if token.kind = closer then
    let _ ← bump
    return []
  else if token.kind = .eof then fail span (.unterminated rune closer)
  else
    let node ← expr budget
    let nodes ← tallUntil budget closer rune span
    return node :: nodes

lemma tallUntil_succ (budget : Nat) (closer : Kind) (rune : Rune) (span : Span) :
    tallUntil (budget + 1) closer rune span = (do
      let token ← peek
      if token.kind = .eof then fail span (.unterminated rune closer)
      else
        expectGap
        tallItem budget closer rune span) := by
  rw [tallUntil]
  rfl

lemma tallUntil_of_kind {budget : Nat} {closer : Kind} {rune : Rune} {span : Span} {c : Cursor}
    (h : c.current.kind ≠ .eof) : tallUntil (budget + 1) closer rune span c =
      (expectGap >>= fun _ => tallItem budget closer rune span) c := by
  rw [tallUntil_succ, Attempt.bind_apply]
  simp only [peek, if_neg h]

lemma starves_tallItem (budget : Nat) {closer : Kind} (hcloser : closer.isSolid = true)
    (rune : Rune) (span : Span) : Starves (tallItem budget closer rune span) := by
  intro c hc
  have hrun : tallItem budget closer rune span c =
      (if c.current.kind = .eof then fail span (.unterminated rune closer) else do
        let node ← expr budget
        let nodes ← tallUntil budget closer rune span
        return node :: nodes) c := by
    rw [tallItem, Attempt.bind_apply]
    simp only [peek, if_neg (hc.kind_ne hcloser)]
  unfold Complains
  rw [hrun]
  split
  · exact complains_fail
  · exact (starves_expr budget).bind c hc

lemma starves_tallUntil (budget : Nat) {closer : Kind} (hcloser : closer.isSolid = true)
    (rune : Rune) (span : Span) : Starves (tallUntil (budget + 1) closer rune span) := by
  rw [tallUntil_succ]
  refine .peek fun token => ?_
  split
  · exact fun _ _ => complains_fail
  · exact .seq separates_expectGap.spent fun _ => starves_tallItem budget hcloser rune span

/-! ## All readers

The budgets of the two readers need not be the same, but each has to last: in front of `n` symbols,
`8 * n` and a few more. -/

/-- For all budgets that last for the symbols left, the readers `p` and `q` agree. -/
def Concur (extra : Nat) (p q : Nat → Parse α) (budget : Nat) (post : Nat → Nat → α → α → Prop) :
    Prop :=
  ∀ budget' n, 8 * n + extra ≤ budget → 8 * n + extra ≤ budget' →
    Agree n (p budget) (q budget') (post n)

namespace Concur

variable {extra budget : Nat} {p q : Nat → Parse α} {post : Nat → Nat → α → α → Prop}

lemma zero : Concur (extra + 1) p q 0 post := by
  intro budget' n h
  omega

lemma succ (h : ∀ budget' n, 8 * n + extra ≤ budget → 8 * n + extra ≤ budget' →
      Agree n (p (budget + 1)) (q (budget' + 1)) (post n)) :
    Concur (extra + 1) p q (budget + 1) post := by
  intro budget' n hle hle'
  obtain ⟨budget', rfl⟩ : ∃ k, budget' = k + 1 := ⟨budget' - 1, by omega⟩
  exact h budget' n (by omega) (by omega)

end Concur

/-- Fewer symbols are left, and the trees are equal up to spans. -/
def Fewer (n m : Nat) (x y : Node) : Prop := m < n ∧ x.bare = y.bare

/-- No more symbols are left, and the trees are equal up to spans. -/
def NoMore (n m : Nat) (x y : Node) : Prop := m ≤ n ∧ x.bare = y.bare

/-- No more symbols are left, and the lists of trees are equal up to spans. -/
def NoMoreAll (n m : Nat) (xs ys : List Node) : Prop := m ≤ n ∧ bareAll xs = bareAll ys

lemma Agree.noMore {m : Nat} {p q : Parse Node} (h : Agree m p q (NoMore m)) (hle : m ≤ n) :
    Agree m p q (NoMore n) :=
  h.imp fun _ _ _ hk => ⟨hk.1.trans hle, hk.2⟩

lemma agree_spanFrom (start start' : Nat) :
    Agree n (spanFrom start) (spanFrom start') fun m _ _ => m = n :=
  fun c d habreast => .inl ⟨_, _, c, d, n, rfl, rfl, habreast, rfl⟩

lemma agree_applied {r : Rune} {args args' : List Node} (h : bareAll args = bareAll args')
    (start start' : Nat) : Agree n (applied r args start) (applied r args' start') (NoMore n) := by
  refine (agree_spanFrom start start').bind ?_
  rintro _ span span' rfl
  exact .pure ⟨Nat.le_refl _, by simp [h]⟩

lemma length_eq_of_bareAll {xs ys : List Node} (h : bareAll xs = bareAll ys) :
    xs.length = ys.length := by
  simpa using congrArg List.length h

mutual

theorem agree_expr : ∀ budget, Concur 8 expr expr budget Fewer
  | 0 => .zero
  | budget + 1 => by
      refine .succ fun budget' n h h' => ?_
      rw [expr, expr]
      refine .peek fun c d habreast => ?_
      refine (agree_operand budget budget' n h h' c d habreast).bind ?_
      rintro m x y ⟨hm, hxy⟩
      refine (agree_chain budget x y hxy _ _ budget' m (by omega) (by omega)).imp ?_
      exact fun k a b hk => ⟨hk.1.trans_lt hm, hk.2⟩

theorem agree_chain : ∀ (budget : Nat) (left left' : Node), left.bare = left'.bare →
    ∀ start start', Concur 8 (chain · start left) (chain · start' left') budget NoMore
  | 0, _, _, _ => fun _ _ => .zero
  | budget + 1, left, left', hleft => by
      intro start start'
      refine .succ fun budget' n h h' => ?_
      rw [chain_succ, chain_succ]
      refine .peek fun c d habreast => ?_
      refine .choose rfl habreast (fun m hm _ _ => ?_)
        (.choose rfl habreast (fun m hm _ _ => ?_) (.pure habreast ⟨Nat.le_refl n, hleft⟩))
      · refine (agree_operand budget budget' m (by omega) (by omega)).bind ?_
        rintro k x y ⟨hk, hxy⟩
        refine (agree_applied (by simp [hleft, hxy]) _ _).bind ?_
        rintro l a b ⟨hl, hab⟩
        exact (agree_chain budget a b hab _ _ budget' l (by omega) (by omega)).noMore (by omega)
      · refine (agree_operand budget budget' m (by omega) (by omega)).bind ?_
        rintro k x y ⟨hk, hxy⟩
        by_cases hface : ∃ name span, left = .face name span
        · obtain ⟨name, span, rfl⟩ := hface
          obtain ⟨span', rfl⟩ := eq_face_of_bare hleft.symm
          refine (agree_spanFrom start start').bind ?_
          rintro _ place place' rfl
          have hfaced : (Node.faced name x place).bare = (Node.faced name y place').bare := by
            simp [hxy]
          exact (agree_chain budget _ _ hfaced _ _ budget' _ (by omega) (by omega)).noMore (by omega)
        · have hfail : ∀ (budget start : Nat) (l : Node) (mark : Token) (r : Node),
              l.bare = left.bare → labelled budget start l mark r = fail mark.span .labelNotFace := by
            intro budget start l mark r hl
            unfold labelled
            split
            · next name span =>
                obtain ⟨span', hspan⟩ := eq_face_of_bare hl.symm
                exact absurd ⟨name, span', hspan⟩ hface
            · rfl
          rw [hfail _ _ _ _ _ rfl, hfail _ _ _ _ _ hleft.symm]
          exact .fail

theorem agree_operand : ∀ budget, Concur 7 operand operand budget Fewer
  | 0 => .zero
  | budget + 1 => by
      refine .succ fun budget' n h h' => ?_
      refine .of_starves (starves_operand _) (starves_operand _) ?_
      intro c d s body hbody hlength hc hd
      rw [operand, operand]
      have hsymbol : c.current.symbol = d.current.symbol := hc.symbol.trans hd.symbol.symm
      refine .bump hc hd fun c' d' hc' hd' =>
        Agree.imp (?_ : Agree body.length _ _ (NoMore body.length))
          (fun k a b hk => ⟨hk.1.trans_lt hlength, hk.2⟩) c' d'
          ⟨body, hbody.tail, Nat.le_refl _, hc', hd'⟩
      generalize c.current = t at hsymbol
      generalize d.current = u at hsymbol
      generalize body.length = m at hlength
      have hkind : t.kind = u.kind := by rw [← t.kind_symbol, hsymbol, u.kind_symbol]
      have hb : 8 * m + 14 ≤ budget := by omega
      have hb' : 8 * m + 14 ≤ budget' := by omega
      rw [hkind]
      split
      · next hk =>
          rw [Token.symbol_of_face (hkind.trans hk), Token.symbol_of_face hk] at hsymbol
          have hface : (Node.face t.text t.span).bare = (Node.face u.text u.span).bare := by
            simpa using hsymbol
          exact agree_gateCall budget _ _ hface _ _ budget' m (by omega) (by omega)
      · have hbuc : (Node.buc t.span).bare = (Node.buc u.span).bare := rfl
        exact agree_gateCall budget _ _ hbuc _ _ budget' m (by omega) (by omega)
      · next hk =>
          rw [Token.symbol_of_num (hkind.trans hk), Token.symbol_of_num hk] at hsymbol
          exact .pure ⟨Nat.le_refl m, by simpa using hsymbol⟩
      · exact .pure ⟨Nat.le_refl m, rfl⟩
      · exact .pure ⟨Nat.le_refl m, rfl⟩
      · next hk =>
          rw [Token.symbol_of_rune (hkind.trans hk), Token.symbol_of_rune hk] at hsymbol
          exact agree_application budget t u (Symbol.rune.inj hsymbol) budget' m (by omega) (by omega)
      · refine (agree_expect rfl).bind ?_
        rintro k _ _ hk
        refine (agree_expr budget budget' k (by omega) (by omega)).bind ?_
        rintro l x y ⟨hl, hxy⟩
        refine (agree_expect rfl).bind ?_
        rintro j _ _ hj
        exact (agree_applied (by simp [hxy]) _ _).noMore (by omega)
      · refine (agree_expect rfl).bind ?_
        rintro k _ _ hk
        refine (agree_expr budget budget' k (by omega) (by omega)).bind ?_
        rintro l x y ⟨hl, hxy⟩
        refine .separate (separates_expect .ace) (starves_expr _).bind (starves_expr _).bind ?_
        intro j hj
        refine (agree_expr budget budget' j (by omega) (by omega)).bind ?_
        rintro i z w ⟨hi, hzw⟩
        refine (agree_expect rfl).bind ?_
        rintro g _ _ hg
        exact (agree_applied (by simp [hxy, hzw]) _ _).noMore (by omega)
      · refine (agree_wideList budget budget' m (by omega) (by omega)).bind ?_
        rintro k xs ys ⟨hk, hxs⟩
        exact (agree_applied hxs _ _).noMore (by omega)
      · refine (agree_cons budget budget' m (by omega) (by omega)).bind ?_
        rintro k x y ⟨hk, hxy⟩
        refine (agree_expect rfl).bind ?_
        rintro l _ _ hl
        exact .pure ⟨by omega, hxy⟩
      · exact .fail
      · exact .fail

theorem agree_gateCall : ∀ (budget : Nat) (target target' : Node), target.bare = target'.bare →
    ∀ start start', Concur 12 (gateCall · start target) (gateCall · start' target') budget NoMore
  | 0, _, _, _ => fun _ _ => .zero
  | budget + 1, target, target', htarget => by
      intro start start'
      refine .succ fun budget' n h h' => ?_
      rw [gateCall, gateCall]
      refine .choose rfl (fun m hm _ _ => ?_) fun _ _ => .pure ⟨Nat.le_refl n, htarget⟩
      have hcall : ∀ k pairs pairs', NoMoreAll m k pairs pairs' →
          Agree k (applied .centis (target :: pairs) start)
            (applied .centis (target' :: pairs') start') (NoMore n) := by
        rintro k pairs pairs' ⟨hk, hpairs⟩
        exact (agree_applied (by simp [htarget, hpairs]) _ _).noMore (by omega)
      refine .choose rfl (fun k hk _ _ => ?_) fun _ _ => ?_
      · exact hcall k [] [] ⟨hk.le, rfl⟩
      · exact (agree_callPairs budget budget' m (by omega) (by omega)).bind hcall

theorem agree_callPairs : ∀ budget, Concur 9 callPairs callPairs budget NoMoreAll
  | 0 => .zero
  | budget + 1 => by
      refine .succ fun budget' n h h' => ?_
      rw [callPairs, callPairs]
      refine (agree_expr budget budget' n h h').bind ?_
      rintro m name name' ⟨hm, hname⟩
      refine .separate (separates_expect .ace) (starves_expr _).bind (starves_expr _).bind ?_
      intro k hk
      refine (agree_expr budget budget' k (by omega) (by omega)).bind ?_
      rintro l value value' ⟨hl, hvalue⟩
      refine .choose rfl (fun j hj _ _ => ?_) fun _ _ => ?_
      · exact .pure ⟨by omega, by simp [hname, hvalue]⟩
      · refine (agree_expect rfl).bind ?_
        rintro j _ _ hj
        refine .separate (separates_expect .ace) (starves_callPairs _).bind
          (starves_callPairs _).bind ?_
        intro i hi
        refine (agree_callPairs budget budget' i (by omega) (by omega)).bind ?_
        rintro g pairs pairs' ⟨hg, hpairs⟩
        exact .pure ⟨by omega, by simp [hname, hvalue, hpairs]⟩

theorem agree_cons : ∀ budget, Concur 9 cons cons budget NoMore
  | 0 => .zero
  | budget + 1 => by
      refine .succ fun budget' n h h' => ?_
      rw [cons, cons]
      refine .peek fun c d habreast => ?_
      refine (agree_expr budget budget' n h h' c d habreast).bind ?_
      rintro m head head' ⟨hm, hhead⟩
      refine .peek fun c d habreast => .test rfl habreast (fun _ _ => ?_) ?_
      · exact .pure habreast ⟨hm.le, hhead⟩
      · refine Agree.separate (separates_expect .ace) (starves_cons _).bind (starves_cons _).bind ?_
          c d habreast
        intro k hk
        refine (agree_cons budget budget' k (by omega) (by omega)).bind ?_
        rintro l tail tail' ⟨hl, htail⟩
        refine (agree_spanFrom _ _).bind ?_
        rintro _ span span' rfl
        exact .pure ⟨by omega, by simp [hhead, htail]⟩

theorem agree_wideList : ∀ budget, Concur 9 wideList wideList budget NoMoreAll
  | 0 => .zero
  | budget + 1 => by
      refine .succ fun budget' n h h' => ?_
      rw [wideList, wideList]
      refine (agree_expr budget budget' n h h').bind ?_
      rintro m node node' ⟨hm, hnode⟩
      refine .choose rfl (fun k hk _ _ => ?_) fun _ _ => ?_
      · exact .pure ⟨by omega, by simp [hnode]⟩
      · refine .separate (separates_expect .ace) (starves_wideList _).bind
          (starves_wideList _).bind ?_
        intro k hk
        refine (agree_wideList budget budget' k (by omega) (by omega)).bind ?_
        rintro l nodes nodes' ⟨hl, hnodes⟩
        exact .pure ⟨by omega, by simp [hnode, hnodes]⟩

theorem agree_application : ∀ (budget : Nat) (t u : Token), Rune.ofText t.text = Rune.ofText u.text →
    Concur 12 (application · t) (application · u) budget NoMore
  | 0, _, _, _ => .zero
  | budget + 1, t, u, hrune => by
      refine .succ fun budget' n h h' => ?_
      rw [application, application]
      dsimp only
      rw [hrune]
      split
      · exact fun c d _ => .inr ⟨_, _, c, d, rfl, rfl, rfl⟩
      · next signature _ =>
          have happlied : ∀ m args args', NoMoreAll n m args args' →
              Agree m (applied (Rune.ofText u.text) args t.span.start)
                (applied (Rune.ofText u.text) args' u.span.start) (NoMore n) := by
            rintro m args args' ⟨hm, hargs⟩
            exact (agree_applied hargs _ _).noMore (by omega)
          refine .peek fun c d habreast => .test rfl habreast (fun _ _ => ?_) ?_
          · exact (agree_wide budget _ signature _ _ budget' n h h').bind happlied c d habreast
          · exact (agree_tall budget _ signature _ _ budget' n h h').bind happlied c d habreast

theorem agree_wide : ∀ (budget : Nat) (r : Rune) (s : Signature) (span span' : Span),
    Concur 11 (wide · r s span) (wide · r s span') budget NoMoreAll
  | 0, _, _, _, _ => .zero
  | budget + 1, r, s, span, span' => by
      refine .succ fun budget' n h h' => ?_
      rw [wide_succ, wide_succ]
      split
      · exact .fail
      · refine (agree_expect rfl).bind ?_
        rintro m _ _ hm
        have hargs : Agree m (wideArgs budget s) (wideArgs budget' s) (NoMoreAll m) := by
          unfold wideArgs
          by_cases hpairs : s.tail = .pairs
          · simp only [hpairs, if_true]
            exact agree_wideJogging budget s budget' m (by omega) (by omega)
          · simp only [hpairs, if_false]
            refine .choose rfl (fun k hk _ _ => .pure ⟨by omega, rfl⟩) fun _ _ => ?_
            exact agree_wideList budget budget' m (by omega) (by omega)
        refine hargs.bind ?_
        rintro k args args' ⟨hk, hargs⟩
        rw [length_eq_of_bareAll hargs]
        split
        · exact .pure ⟨by omega, hargs⟩
        · exact .fail

theorem agree_wideFixed : ∀ budget count : Nat,
    Concur 9 (wideFixed · count) (wideFixed · count) budget NoMoreAll
  | 0, _ => .zero
  | budget + 1, 0 => by
      refine .succ fun budget' n h h' => ?_
      rw [wideFixed, wideFixed]
      exact .pure ⟨Nat.le_refl n, rfl⟩
  | budget + 1, 1 => by
      refine .succ fun budget' n h h' => ?_
      rw [wideFixed, wideFixed]
      refine (agree_expr budget budget' n h h').bind ?_
      rintro m node node' ⟨hm, hnode⟩
      exact .pure ⟨hm.le, by simp [hnode]⟩
  | budget + 1, count + 2 => by
      refine .succ fun budget' n h h' => ?_
      rw [wideFixed, wideFixed]
      refine (agree_expr budget budget' n h h').bind ?_
      rintro m node node' ⟨hm, hnode⟩
      refine .separate (separates_expect .ace) (starves_wideFixed _ _).bind
        (starves_wideFixed _ _).bind ?_
      intro k hk
      refine (agree_wideFixed budget (count + 1) budget' k (by omega) (by omega)).bind ?_
      rintro l nodes nodes' ⟨hl, hnodes⟩
      exact .pure ⟨by omega, by simp [hnode, hnodes]⟩

theorem agree_wideJogging : ∀ (budget : Nat) (s : Signature),
    Concur 10 (wideJogging · s) (wideJogging · s) budget NoMoreAll
  | 0, _ => .zero
  | budget + 1, s => by
      refine .succ fun budget' n h h' => ?_
      rw [wideJogging, wideJogging]
      refine (agree_wideFixed budget s.args budget' n h h').bind ?_
      rintro m fixed fixed' ⟨hm, hfixed⟩
      have hpairs : ∀ k ≤ n, Agree k (do let pairs ← widePairs budget s; pure (fixed ++ pairs))
          (do let pairs ← widePairs budget' s; pure (fixed' ++ pairs)) (NoMoreAll n) := by
        intro k hk
        refine (agree_widePairs budget s budget' k (by omega) (by omega)).bind ?_
        rintro l pairs pairs' ⟨hl, hpairs⟩
        exact .pure ⟨by omega, by simp [hfixed, hpairs]⟩
      refine .choose rfl (fun k hk _ _ => .pure ⟨by omega, hfixed⟩) fun _ _ => ?_
      split
      · refine .separate (separates_expect .ace) (starves_widePairs _ _).bind
          (starves_widePairs _ _).bind ?_
        exact fun k hk => hpairs k (by omega)
      · exact hpairs m hm

theorem agree_widePairs : ∀ (budget : Nat) (s : Signature),
    Concur 9 (widePairs · s) (widePairs · s) budget NoMoreAll
  | 0, _ => .zero
  | budget + 1, s => by
      refine .succ fun budget' n h h' => ?_
      rw [widePairs, widePairs]
      refine (agree_expr budget budget' n h h').bind ?_
      rintro m name name' ⟨hm, hname⟩
      refine .separate (separates_expect .ace) (starves_expr _).bind (starves_expr _).bind ?_
      intro k hk
      refine (agree_expr budget budget' k (by omega) (by omega)).bind ?_
      rintro l value value' ⟨hl, hvalue⟩
      refine .peek fun c d habreast => ?_
      refine .choose rfl habreast (fun j hj _ _ => ?_)
        (.choose rfl habreast (fun j hj _ _ => ?_) ?_)
      · exact .pure ⟨by omega, by simp [hname, hvalue]⟩
      · refine .separate (separates_expect .ace) (starves_widePairs _ _).bind
          (starves_widePairs _ _).bind ?_
        intro i hi
        refine (agree_widePairs budget s budget' i (by omega) (by omega)).bind ?_
        rintro g rest rest' ⟨hg, hrest⟩
        exact .pure ⟨by omega, by simp [hname, hvalue, hrest]⟩
      · by_cases hpost : 0 < s.post
        · simp only [hpost, and_true]
          have htake : Agree l
              (do take .ace .expectedCommaOrPar; let rest ← wideList budget
                  return name :: value :: rest)
              (do take .ace .expectedCommaOrPar; let rest ← wideList budget'
                  return name' :: value' :: rest) (NoMoreAll n) := by
            refine .separate (separates_take _ _) (starves_wideList _).bind
              (starves_wideList _).bind ?_
            intro i hi
            refine (agree_wideList budget budget' i (by omega) (by omega)).bind ?_
            rintro g rest rest' ⟨hg, hrest⟩
            exact .pure ⟨by omega, by simp [hname, hvalue, hrest]⟩
          have halike := htake c d habreast
          rwa [take_bind, take_bind] at halike
        · simp only [hpost, and_false, if_false]
          exact .of_complains complains_fail complains_fail

theorem agree_tall : ∀ (budget : Nat) (r : Rune) (s : Signature) (span span' : Span),
    Concur 11 (tall · r s span) (tall · r s span') budget NoMoreAll
  | 0, _, _, _, _ => .zero
  | budget + 1, r, s, span, span' => by
      refine .succ fun budget' n h h' => ?_
      rw [tall_succ, tall_succ]
      refine (agree_tallFixed budget s.args budget' n (by omega) (by omega)).bind ?_
      rintro m fixed fixed' ⟨hm, hfixed⟩
      have hitems : Agree m (tallItems budget r s span) (tallItems budget' r s span')
          (NoMoreAll m) := by
        unfold tallItems
        split
        · exact .pure ⟨Nat.le_refl m, rfl⟩
        · next closer hcloser =>
            have hsolid : closer.isSolid = true := by
              cases htail : s.tail <;> rw [htail] at hcloser <;> cases hcloser <;> rfl
            exact agree_tallUntil budget closer r span span' hsolid budget' m (by omega) (by omega)
      refine hitems.bind ?_
      rintro k items items' ⟨hk, hitems⟩
      rw [length_eq_of_bareAll hitems]
      split
      · exact .fail
      · refine (agree_tallFixed budget s.post budget' k (by omega) (by omega)).bind ?_
        rintro l post post' ⟨hl, hpost⟩
        exact .pure ⟨by omega, by simp [hfixed, hitems, hpost]⟩

theorem agree_tallFixed : ∀ budget count : Nat,
    Concur 9 (tallFixed · count) (tallFixed · count) budget NoMoreAll
  | 0, _ => .zero
  | budget + 1, 0 => by
      refine .succ fun budget' n h h' => ?_
      rw [tallFixed, tallFixed]
      exact .pure ⟨Nat.le_refl n, rfl⟩
  | budget + 1, count + 1 => by
      refine .succ fun budget' n h h' => ?_
      rw [tallFixed, tallFixed]
      refine .separate separates_expectGap (starves_expr _).bind (starves_expr _).bind ?_
      intro m hm
      refine (agree_expr budget budget' m (by omega) (by omega)).bind ?_
      rintro k node node' ⟨hk, hnode⟩
      refine (agree_tallFixed budget count budget' k (by omega) (by omega)).bind ?_
      rintro l nodes nodes' ⟨hl, hnodes⟩
      exact .pure ⟨by omega, by simp [hnode, hnodes]⟩

theorem agree_tallUntil : ∀ (budget : Nat) (closer : Kind) (r : Rune) (span span' : Span),
    closer.isSolid = true →
      Concur 9 (tallUntil · closer r span) (tallUntil · closer r span') budget NoMoreAll
  | 0, _, _, _, _, _ => .zero
  | budget + 1, closer, r, span, span', hcloser => by
      refine .succ fun budget' n h h' => ?_
      have hitem : ∀ m < n,
          Agree m (tallItem budget closer r span) (tallItem budget' closer r span') (NoMoreAll n) := by
        intro m hm
        refine .of_starves (starves_tallItem _ hcloser _ _) (starves_tallItem _ hcloser _ _) ?_
        intro c d s body hbody hlength hc hd
        have habreast := hc.abreast hd hbody hlength
        refine .choose hcloser habreast (fun k hk _ _ => .pure ⟨by omega, rfl⟩) ?_
        rw [hc.kind, hd.kind, if_neg hbody.kind_ne_eof, if_neg hbody.kind_ne_eof]
        refine (agree_expr budget budget' m (by omega) (by omega) c d habreast).bind ?_
        rintro k node node' ⟨hk, hnode⟩
        refine (agree_tallUntil budget closer r span span' hcloser budget' k
          (by omega) (by omega)).bind ?_
        rintro l nodes nodes' ⟨hl, hnodes⟩
        exact .pure ⟨by omega, by simp [hnode, hnodes]⟩
      refine .of_starves (starves_tallUntil _ hcloser _ _) (starves_tallUntil _ hcloser _ _) ?_
      intro c d s body hbody hlength hc hd
      rw [tallUntil_of_kind (by rw [hc.kind]; exact hbody.kind_ne_eof),
        tallUntil_of_kind (by rw [hd.kind]; exact hbody.kind_ne_eof)]
      exact Agree.separate separates_expectGap (starves_tallItem budget hcloser r span)
        (starves_tallItem budget' hcloser r span') hitem c d (hc.abreast hd hbody hlength)

end

/-! ## Behind an expression -/

/-- Return the tree if the source ends here, and complain otherwise. -/
def finish (node : Node) : Parse Node := do
  let token ← peek
  if token.kind = .eof then return node
  else fail token.span (.trailing token.text)

/-- Return the tree if the source ends here, or behind a separator. -/
def close (node : Node) : Parse Node := do
  skipSeparator
  finish node

lemma skipSeparator_bind {f : Unit → Parse α} (c : Cursor) :
    (skipSeparator >>= f) c =
      (if c.current.kind.isSeparator = true then bump >>= fun _ => f () else f ()) c := by
  change ((if c.current.kind.isSeparator = true then bump >>= fun _ => pure () else pure ()) >>= f) c
    = _
  split
  · rw [bind_assoc]
    rfl
  · rfl

lemma complains_finish {c : Cursor} {s : Symbol} {body : List Symbol} (hbody : IsBody (s :: body))
    (hc : c.Shows (s :: body)) (node : Node) : Complains (finish node) c := by
  refine ⟨c.current.span, .trailing c.current.text, c, ?_⟩
  have hne : c.current.kind ≠ .eof := by
    rw [hc.kind]
    exact hbody.kind_ne_eof
  simp [finish, Attempt.bind_apply, peek, hne, fail]

/-- On a spent cursor `skipSeparator` leaves nothing but the end. -/
lemma exists_skip_of_spent {c : Cursor} (hc : c.Spent) :
    ∃ d : Cursor, d.view = [.eof] ∧ ∀ (β : Type) (f : Unit → Parse β),
      (skipSeparator >>= f) c = f () d := by
  rcases hc.view with hview | ⟨s, hs, hview⟩
  · refine ⟨c, hview, fun β f => ?_⟩
    rw [skipSeparator_bind, if_neg (by simp [Cursor.kind_of_plain hview, Kind.isSeparator])]
  · rcases bump_of_view hview with ⟨hu, -⟩ | ⟨-, d, hbump, hd⟩
    · cases hu
    · refine ⟨d, hd, fun β f => ?_⟩
      rw [skipSeparator_bind, if_pos (by rwa [Cursor.kind_current hview]), Attempt.bind_apply, hbump]

lemma close_of_spent {c : Cursor} (hc : c.Spent) (node : Node) :
    ∃ d, close node c = (.ok node, d) ∧ d.Spent := by
  obtain ⟨d, hview, hskip⟩ := exists_skip_of_spent hc
  refine ⟨d, ?_, [.eof], .inl rfl, hview⟩
  rw [close, hskip]
  simp [finish, Attempt.bind_apply, peek, Cursor.kind_of_plain hview]

lemma agree_close {x y : Node} (h : x.bare = y.bare) :
    Agree n (close x) (close y) fun _ a b => a.bare = b.bare := by
  intro c d habreast
  rcases habreast.cases with ⟨hc, hd⟩ | ⟨s, body, hbody, -, hc, hd⟩
  · obtain ⟨c', hrun, hc'⟩ := close_of_spent hc x
    obtain ⟨d', hrun', hd'⟩ := close_of_spent hd y
    exact .inl ⟨x, y, c', d', 0, hrun, hrun', ⟨[], ⟨by simp, by simp⟩, Nat.le_refl _, hc', hd'⟩, h⟩
  · rw [close, close, skipSeparator_bind, skipSeparator_bind, hc.kind, hd.kind]
    split
    · next hsep =>
        -- A separator is not the last symbol, so something stands behind it.
        obtain ⟨u, rest, rfl⟩ : ∃ u rest, body = u :: rest := by
          refine List.exists_cons_of_ne_nil ?_
          rintro rfl
          rw [hbody.last s rfl] at hsep
          cases hsep
        refine .bump hc hd fun c' d' hc' hd' => ?_
        exact .of_complains (complains_finish hbody.tail hc' x) (complains_finish hbody.tail hd' y)
    · exact .of_complains (complains_finish hbody hc x) (complains_finish hbody hd y)

end Parse

/-! ## Opening a source -/

lemma isBody_phrase (source : String) : IsBody (phrase source) := by
  obtain ⟨body, hbody, hnot, -⟩ := symbols_eq source
  rw [phrase, hbody, List.dropLast_concat]
  refine ⟨fun hmem => hnot ?_, fun s hs => ?_⟩
  · exact (List.dropWhile_sublist _).subset ((List.rdropWhile_prefix _ _).subset hmem)
  · obtain ⟨hne, rfl⟩ := List.mem_getLast?_eq_getLast hs
    simpa using List.rdropWhile_last_not _ _ hne

/-- A phrase does not start with a separator. -/
lemma head_phrase {source : String} {s : Symbol} {ts : List Symbol} (h : phrase source = s :: ts) :
    s.kind.isSeparator = false := by
  obtain ⟨us, hus⟩ := List.rdropWhile_prefix (fun s : Symbol => s.kind.isSeparator)
    (((folded (lex source)).map Token.symbol).dropLast.dropWhile (·.kind.isSeparator))
  have hhead := head_dropWhile (fun s : Symbol => s.kind.isSeparator)
    ((folded (lex source)).map Token.symbol).dropLast
  rw [← hus] at hhead
  change ∀ a ∈ (phrase source ++ us).head?, a.kind.isSeparator = false at hhead
  rw [h] at hhead
  exact hhead s rfl

lemma isTail_append {after : List Symbol} (hsep : ∀ s ∈ after, s.kind.isSeparator = true)
    (hlength : after.length ≤ 1) : IsTail (after ++ [.eof]) := by
  rcases after with _ | ⟨s, _ | ⟨u, after⟩⟩
  · exact .inl rfl
  · exact .inr ⟨s, hsep s (by simp), rfl⟩
  · simp at hlength

lemma head_append_tail {ts rest : List Symbol} (h : ts.head? ≠ some (.plain .illegal))
    (htail : IsTail rest) : (ts ++ rest).head? ≠ some (.plain .illegal) := by
  cases ts with
  | cons s ts => exact h
  | nil =>
      rcases htail with rfl | ⟨s, hs, rfl⟩
      · simp
      · rintro ⟨⟩
        cases hs

/-- If the phrase of a source starts with an illegal token, `parse` fails for an illegal token. -/
lemma parse_of_illegal {source : String} (h : (phrase source).head? = some (.plain .illegal)) :
    ∃ span text, parse source = .error (.illegal span text) := by
  obtain ⟨ts, hphrase⟩ := List.head?_eq_some_iff.1 h
  obtain ⟨before, after, hlayout, hbefore, hlength, -⟩ := exists_layout source
  obtain ⟨first, raw, hlex, hcursor⟩ := ofSource_eq source
  rw [hphrase] at hlayout
  rcases before with _ | ⟨s, _ | ⟨u, before⟩⟩
  · have hfirst : first.kind = .illegal := by
      rw [← head_folded_illegal first raw, ← hlex, hlayout]
      rfl
    refine ⟨first.span, first.text, ?_⟩
    simp [parse, hcursor, fold, hfirst]
  · have hs := hbefore s (by simp)
    have hfirst : first.kind ≠ .illegal := by
      rw [ne_eq, ← head_folded_illegal first raw, ← hlex, hlayout]
      rintro ⟨⟩
      cases hs
    obtain ⟨token, rest, hfold, -⟩ := exists_fold hfirst raw
    rw [hfold] at hcursor
    have hview := (view_ofSource hcursor).trans hlayout
    rcases Parse.bump_of_view hview with ⟨-, span, text, d, hbump⟩ | ⟨hne, -⟩
    · refine ⟨span, text, ?_⟩
      rw [parse, hcursor, Parse.whole]
      dsimp only
      rw [Parse.skipSeparator_bind, if_pos (by rwa [Cursor.kind_current hview]),
        Attempt.bind_apply, hbump]
    · exact absurd rfl hne
  · simp at hlength

/-- Otherwise `parse` is an expression up to the end, on a cursor that shows the phrase. -/
lemma exists_cursor_of_phrase {source : String}
    (h : (phrase source).head? ≠ some (.plain .illegal)) :
    ∃ c : Cursor, c.Shows (phrase source) ∧
      parse source = ((Parse.expression >>= Parse.close) c).1 := by
  obtain ⟨before, after, hlayout, hbefore, hlength, hafter, hlength'⟩ := exists_layout source
  have htail := isTail_append hafter hlength'
  obtain ⟨first, raw, hlex, hcursor⟩ := ofSource_eq source
  have hnext := head_append_tail h htail
  have hfirst : first.kind ≠ .illegal := by
    rw [ne_eq, ← head_folded_illegal first raw, ← hlex, hlayout]
    cases before with
    | nil => exact hnext
    | cons s before =>
        have hs := hbefore s List.mem_cons_self
        rintro ⟨⟩
        cases hs
  obtain ⟨token, rest, hfold, -⟩ := exists_fold hfirst raw
  rw [hfold] at hcursor
  have hview := (view_ofSource hcursor).trans hlayout
  have hparse : ∀ d : Cursor, (∀ f : Unit → Parse Node,
      (Parse.skipSeparator >>= f) ⟨token, rest, 0⟩ = f () d) →
      parse source = ((Parse.expression >>= Parse.close) d).1 := by
    intro d hskip
    rw [parse, hcursor, Parse.whole]
    dsimp only
    rw [hskip]
    rfl
  rcases before with _ | ⟨s, _ | ⟨u, before⟩⟩
  · cases hphrase : phrase source with
    | nil =>
        rw [hphrase] at hview
        obtain ⟨d, hd, hskip⟩ := Parse.exists_skip_of_spent ⟨_, htail, hview⟩
        exact ⟨d, ⟨[.eof], .inl rfl, hd⟩, hparse d fun f => hskip Node f⟩
    | cons s ts =>
        rw [hphrase] at hview
        refine ⟨_, ⟨_, htail, hview⟩, hparse _ fun f => ?_⟩
        rw [Parse.skipSeparator_bind, if_neg]
        rw [Cursor.kind_current hview, head_phrase hphrase]
        simp
  · obtain ⟨u, us, hus⟩ : ∃ u us, phrase source ++ (after ++ [.eof]) = u :: us :=
      List.exists_cons_of_ne_nil (by simp)
    rw [List.singleton_append, hus] at hview
    rcases Parse.bump_of_view hview with ⟨rfl, -⟩ | ⟨-, d, hbump, hd⟩
    · rw [hus] at hnext
      exact absurd rfl hnext
    · refine ⟨d, ⟨_, htail, hd.trans hus.symm⟩, hparse d fun f => ?_⟩
      rw [Parse.skipSeparator_bind, if_pos, Attempt.bind_apply, hbump]
      rw [Cursor.kind_current hview]
      exact hbefore s List.mem_cons_self
  · simp at hlength

/-! ## Outlines -/

/-- The kind and the text of a token, without the text if it is a separator. -/
def Token.outline (t : Token) : Kind × String :=
  (t.kind, if t.kind.isSeparator then "" else t.text)

/-- The tokens of a source in outline, layout folded, from the first that is no separator to the
last. -/
def outline (source : String) : List (Kind × String) :=
  let tokens := (folded (lex source)).dropLast
  ((tokens.dropWhile (·.kind.isSeparator)).rdropWhile (·.kind.isSeparator)).map Token.outline

/-- The symbol of a token that is given in outline. -/
def outlineSymbol (entry : Kind × String) : Symbol := Token.symbol ⟨entry.1, entry.2, .nowhere⟩

lemma outlineSymbol_outline (t : Token) : outlineSymbol t.outline = t.symbol := by
  unfold outlineSymbol Token.outline Token.symbol
  cases t.kind <;> rfl

/-- The phrase of a source is determined by its outline. -/
lemma phrase_eq_map_outline (source : String) :
    phrase source = (outline source).map outlineSymbol := by
  have hkind :
      (fun s : Symbol => s.kind.isSeparator) ∘ Token.symbol = fun t => t.kind.isSeparator := by
    funext t
    simp
  have hsymbol : outlineSymbol ∘ Token.outline = Token.symbol := funext outlineSymbol_outline
  rw [phrase, outline, List.map_map, hsymbol, ← List.map_dropLast, List.rdropWhile, List.rdropWhile,
    List.dropWhile_map, hkind, ← List.map_reverse, List.dropWhile_map, hkind, List.map_reverse]

/-- The budget of a cursor lasts for an expression among the symbols that it shows. -/
lemma budget_of_shows {c : Cursor} {body : List Symbol} (h : c.Shows body) :
    8 * body.length + 8 ≤ c.budget := by
  obtain ⟨rest, hrest, hview⟩ := h
  obtain ⟨u, us, rfl⟩ : ∃ u us, rest = u :: us := by
    rcases hrest with rfl | ⟨s, -, rfl⟩
    · exact ⟨_, _, rfl⟩
    · exact ⟨_, _, rfl⟩
  have hview : c.view = (body ++ [u]) ++ us := by simpa using hview
  have hbudget := Parse.budget_ge hview
  rw [List.length_append, List.length_singleton] at hbudget
  omega

/-- **Layout does not matter beyond a single space or a gap.**  Sources with the same outline are
both read, as trees that differ in nothing but their places, or both refused, with errors of the
same kind. -/
theorem parse_respaced {s t : String} (h : outline s = outline t) :
    (∃ m n, parse s = .ok m ∧ parse t = .ok n ∧ m.bare = n.bare) ∨
      ∃ e f, parse s = .error e ∧ parse t = .error f ∧ e.ctorIdx = f.ctorIdx := by
  have hphrase : phrase s = phrase t := by
    rw [phrase_eq_map_outline, phrase_eq_map_outline, h]
  by_cases hillegal : (phrase s).head? = some (.plain .illegal)
  · obtain ⟨span, text, hs⟩ := parse_of_illegal hillegal
    obtain ⟨span', text', ht⟩ := parse_of_illegal (hphrase ▸ hillegal)
    exact .inr ⟨_, _, hs, ht, rfl⟩
  · obtain ⟨c, hc, hs⟩ := exists_cursor_of_phrase hillegal
    obtain ⟨d, hd, ht⟩ := exists_cursor_of_phrase (hphrase ▸ hillegal)
    rw [← hphrase] at hd
    have habreast : Cursor.Abreast (phrase s).length c d :=
      ⟨phrase s, isBody_phrase s, Nat.le_refl _, hc, hd⟩
    have hexpr : Parse.Alike (Parse.expression c) (Parse.expression d)
        (Parse.Fewer (phrase s).length) :=
      Parse.agree_expr c.budget d.budget _ (budget_of_shows hc) (budget_of_shows hd) c d habreast
    have hwhole := hexpr.bind fun m x y hxy => Parse.agree_close (n := m) hxy.2
    rcases hwhole with ⟨m, n, _, _, _, hm, hn, -, hbare⟩ | ⟨e, f, _, _, he, hf, hsame⟩
    · exact .inl ⟨m, n, by rw [hs, hm], by rw [ht, hn], hbare⟩
    · exact .inr ⟨e, f, by rw [hs, he], by rw [ht, hf], hsame⟩

/-- Comments inside of an expression and around it. -/
theorem parse_respaced_comments :
    outline "=/  a  1\n+(a)" = outline " :: b\n=/ :: é\n  a\n\n1 :: c\n\n  +(a)  " ∧
      ∃ m n, parse "=/  a  1\n+(a)" = .ok m ∧
        parse " :: b\n=/ :: é\n  a\n\n1 :: c\n\n  +(a)  " = .ok n ∧ m.bare = n.bare := by
  have houtline : outline "=/  a  1\n+(a)" =
      outline " :: b\n=/ :: é\n  a\n\n1 :: c\n\n  +(a)  " := by
    decide +kernel
  have hok : (parse "=/  a  1\n+(a)").toOption.isSome = true := by decide +kernel
  refine ⟨houtline, ?_⟩
  rcases parse_respaced houtline with hread | ⟨e, f, hs, -⟩
  · exact hread
  · rw [hs] at hok
    cases hok

end Runic
