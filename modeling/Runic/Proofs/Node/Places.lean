import Runic.Proofs.Node.Completeness
import Runic.Proofs.Node.Parts
import Runic.Proofs.Node.Replay

/-!
# Where the nodes of a tree stand

A node has the span of the tokens that it was read from, and from these tokens alone it is read
again.  Cells are the exception: the brackets around a cell are no part of its span, so it is read
again only from between brackets.

* `Placed` — a node stands somewhere among some tokens.
* `Parse.replays_expr` — **every node of an expression that is read stands among the tokens taken**,
  and the expression is read again from them.  Each reader has one lemma, and all of them are proved
  together, by recursion on the budget.
-/

namespace Runic

/-! ## Places among tokens -/

/-- The node is a cell. -/
def Node.isCell : Node → Bool
  | .cell _ _ _ => true
  | _ => false

/-- An expression in front of a token of the kind does not go on with it. -/
structure Kind.IsCalm (kind : Kind) : Prop where
  ne_pal : kind ≠ .mark .pal
  ne_col : kind ≠ .mark .col
  ne_tis : kind ≠ .mark .tis

/-- The span goes from the start of the first of the tokens to the stop of the last. -/
def Covers (ts : List Token) (span : Span) : Prop :=
  ∃ first last, ts.head? = some first ∧ ts.getLast? = some last ∧
    span = ⟨first.span.start, last.span.stop⟩

lemma covers_lastStop {ts : List Token} {first : Token} (h : ts.head? = some first)
    (before : Nat) : Covers ts ⟨first.span.start, lastStop before ts⟩ := by
  rcases List.eq_nil_or_concat' ts with rfl | ⟨us, last, rfl⟩
  · cases h
  · exact ⟨first, last, h, List.getLast?_concat, by simp [lastStop]⟩

namespace Parse

/-- From the tokens `ts` moved by `offset`, with anything calm behind them, `expr` gives `n` moved
by `offset`. -/
def ReadAlone (offset : Nat) (ts : List Token) (n : Node) : Prop :=
  ∃ budget, ∀ (d : Cursor) (rest : List Token), d.Clean →
    d.tokens = ts.map (Token.moved offset) ++ rest → (∀ t ∈ rest.head?, t.kind.IsCalm) →
    ∃ d', expr budget d = (.ok (n.moved offset), d') ∧ d'.tokens = rest

/-- From the tokens, further on and with `]` behind them, the tree is read as what stands between
brackets. -/
def ReadBetween (offset : Nat) (ts : List Token) (n : Node) : Prop :=
  ∃ budget, ∀ (d : Cursor) (rest : List Token), d.Clean →
    d.tokens = ts.map (Token.moved offset) ++ rest → (∀ t ∈ rest.head?, t.kind = .mark .ser) →
    ∃ d', cons budget d = (.ok (n.moved offset), d') ∧ d'.Clean ∧ d'.tokens = rest

end Parse

open Parse (ReadAlone ReadBetween)

/-- **The node is placed among the tokens `us`**: its span covers some of them, and it is read again
from these. -/
inductive Placed (offset : Nat) (us : List Token) (n : Node) : Prop
  | alone {ts : List Token} : ts <:+: us → n.isCell = false → Covers ts n.span →
      ReadAlone offset ts n → Placed offset us n
  | between {t u : Token} {ts : List Token} : t :: ts ++ [u] <:+: us → n.isCell = true →
      Covers ts n.span → u.kind = .mark .ser → ReadBetween offset ts n → Placed offset us n

lemma Placed.mono {offset : Nat} {us vs : List Token} {n : Node} (h : Placed offset us n)
    (hus : us <:+: vs) : Placed offset vs n := by
  cases h with
  | alone hts hcell hcovers hread => exact .alone (hts.trans hus) hcell hcovers hread
  | between hts hcell hcovers hser hread =>
      exact .between (hts.trans hus) hcell hcovers hser hread

lemma Placed.exists_covers {offset : Nat} {us : List Token} {n : Node} (h : Placed offset us n) :
    ∃ ts, ts <:+: us ∧ Covers ts n.span := by
  cases h with
  | alone hts _ hcovers _ => exact ⟨_, hts, hcovers⟩
  | @between t u ts hts _ hcovers _ _ =>
      have hinner : ts <:+: t :: ts ++ [u] := ⟨[t], [u], rfl⟩
      exact ⟨ts, hinner.trans hts, hcovers⟩

lemma Node.All.imp {p q : Node → Prop} {n : Node} (h : n.All p) (himp : ∀ m, p m → q m) :
    n.All q :=
  fun m hm => himp m (h m hm)

/-- All nodes of some trees are placed among the tokens. -/
def AllPlaced (offset : Nat) (us : List Token) (nodes : List Node) : Prop :=
  ∀ n ∈ nodes, n.All (Placed offset us)

namespace AllPlaced

variable {offset : Nat} {us vs : List Token} {as bs : List Node} {n : Node}

lemma nil : AllPlaced offset us [] := by
  simp [AllPlaced]

lemma one (h : n.All (Placed offset us)) : AllPlaced offset us [n] := by
  simpa [AllPlaced] using h

lemma left (h : AllPlaced offset us as) (vs : List Token) : AllPlaced offset (us ++ vs) as :=
  fun n hn => (h n hn).imp fun _ hm => hm.mono (List.prefix_append us vs).isInfix

lemma right (h : AllPlaced offset vs as) (us : List Token) : AllPlaced offset (us ++ vs) as :=
  fun n hn => (h n hn).imp fun _ hm => hm.mono (List.suffix_append us vs).isInfix

lemma append (ha : AllPlaced offset us as) (hb : AllPlaced offset vs bs) :
    AllPlaced offset (us ++ vs) (as ++ bs) := by
  intro n hn
  rcases List.mem_append.1 hn with hn | hn
  · exact ha.left vs n hn
  · exact hb.right us n hn

end AllPlaced

/-! ## Chains -/

namespace Parse

lemma chain_of_calm {budget start : Nat} {left : Node} {c : Cursor} (h : c.current.kind.IsCalm) :
    chain (budget + 1) start left c = (.ok left, c) := by
  rw [chain, Attempt.bind_apply]
  simp only [peek]
  refine congrFun (?_ : (_ : Parse Node) = Pure.pure left) c
  split
  · next hk => exact absurd hk h.ne_col
  · next hk => exact absurd hk h.ne_tis
  · rfl

/-- The reader `operand` does not depend on `prevEnd`. -/
lemma operand_of_prevEnd {budget : Nat} {d d' : Cursor} {stop : Nat} {n : Node}
    (h : operand budget { d with prevEnd := stop } = (.ok n, d')) :
    operand budget d = (.ok n, d') := by
  cases budget with
  | zero =>
      rw [operand] at h
      cases h
  | succ budget =>
      rw [operand] at h ⊢
      exact h

lemma expr_of_prevEnd {budget : Nat} {d d' : Cursor} {stop : Nat} {n : Node}
    (h : expr budget { d with prevEnd := stop } = (.ok n, d')) : expr budget d = (.ok n, d') := by
  cases budget with
  | zero =>
      rw [expr] at h
      cases h
  | succ budget =>
      rw [expr] at h ⊢
      obtain ⟨_, _, ⟨⟩, h⟩ := Attempt.bind_eq_ok.1 h
      obtain ⟨left, e, hleft, h⟩ := Attempt.bind_eq_ok.1 h
      exact Attempt.bind_eq_ok.2 ⟨_, _, rfl,
        Attempt.bind_eq_ok.2 ⟨left, e, operand_of_prevEnd hleft, h⟩⟩

lemma cons_of_prevEnd {budget : Nat} {d d' : Cursor} {stop : Nat} {n : Node}
    (h : cons budget { d with prevEnd := stop } = (.ok n, d')) : cons budget d = (.ok n, d') := by
  cases budget with
  | zero =>
      rw [cons] at h
      cases h
  | succ budget =>
      rw [cons] at h ⊢
      obtain ⟨_, _, ⟨⟩, h⟩ := Attempt.bind_eq_ok.1 h
      obtain ⟨head, e, hhead, h⟩ := Attempt.bind_eq_ok.1 h
      exact Attempt.bind_eq_ok.2 ⟨_, _, rfl,
        Attempt.bind_eq_ok.2 ⟨head, e, expr_of_prevEnd hhead, h⟩⟩

lemma expr_of_operand {budget : Nat} {d d' : Cursor} {n : Node}
    (h : operand budget d = (.ok n, d')) :
    expr (budget + 1) d = chain budget d.current.span.start n d' := by
  rw [expr]
  simp only [Attempt.bind_apply, peek, h]

/-- The tokens `ws` bring an expression to the point of its chain where `left` is its left part and
`budget` is left. -/
def Begun (offset budget : Nat) (ws : List Token) (start : Nat) (left : Node) (c : Cursor) :
    Prop :=
  (∃ first, ws.head? = some first ∧ first.span.start = start) ∧
    ∃ spent, ∀ (d : Cursor) (rest : List Token), d.Clean →
      d.tokens = ws.map (Token.moved offset) ++ rest →
      (∀ t ∈ rest.head?, t.kind = c.current.kind ∨ t.kind.IsCalm) →
      ∃ d', expr (spent + budget) d = chain budget (start + offset) (left.moved offset) d' ∧
        d'.Clean ∧ d'.tokens = rest ∧ d'.prevEnd = c.prevEnd + offset

section

variable {offset budget start : Nat} {ws us : List Token} {left right : Node} {c d e : Cursor}

lemma Taken.head {α : Type} {move : α → α} {allowed : Kind → Prop} {q : Parse α} {a : α}
    (h : Taken offset move allowed q c us a e) (hne : us ≠ []) : us.head? = some c.current := by
  obtain ⟨first, us, rfl⟩ := List.exists_cons_of_ne_nil hne
  rw [Cursor.current_of_tokens h.tokens, List.head?_cons]

lemma Taken.covers {α : Type} {move : α → α} {allowed : Kind → Prop} {q : Parse α} {a : α}
    (h : Taken offset move allowed q c us a e) (hne : us ≠ []) :
    Covers us ⟨c.current.span.start, e.prevEnd⟩ := by
  rw [h.prevEnd]
  exact covers_lastStop (h.head hne) c.prevEnd

/-- The first operand of an expression begins it. -/
lemma Taken.begun
    (h : Taken offset (Node.moved offset) Kind.IsCalm (operand budget) c us left e)
    (hne : us ≠ []) : Begun offset budget us c.current.span.start left e := by
  refine ⟨⟨c.current, h.head hne, rfl⟩, 1, fun d rest hd htokens hrest => ?_⟩
  obtain ⟨d', hrun, hd'⟩ :=
    h.again { d with prevEnd := c.prevEnd + offset } rest ⟨hd.ended, hd.legal⟩ htokens rfl hrest
  obtain ⟨first, us, rfl⟩ := List.exists_cons_of_ne_nil hne
  obtain rfl := Cursor.current_of_tokens h.tokens
  refine ⟨d', ?_, hd'⟩
  rw [Nat.add_comm, expr_of_operand (operand_of_prevEnd hrun), Cursor.current_of_tokens htokens]
  rfl

/-- One more operand of a chain brings the expression further. -/
lemma Begun.step {joined : Node} (h : Begun offset (budget + 1) ws start left c)
    (hkind : c.current.kind ≠ .eof) (hprev : d.prevEnd = c.current.span.stop)
    (hright : Taken offset (Node.moved offset) Kind.IsCalm (operand budget) d us right e)
    (hstep : ∀ {d₁ d₂ d₃ : Cursor} {t : Token}, d₁.current.kind = c.current.kind →
      bump d₁ = (.ok t, d₂) → operand budget d₂ = (.ok (right.moved offset), d₃) →
      d₃.prevEnd = e.prevEnd + offset →
      chain (budget + 1) (start + offset) (left.moved offset) d₁ =
        chain budget (start + offset) (joined.moved offset) d₃) :
    Begun offset budget (ws ++ c.current :: us) start joined e := by
  obtain ⟨⟨first, hfirst, hstart⟩, spent, h⟩ := h
  refine ⟨⟨first, by simp [hfirst], hstart⟩, spent + 1, fun f rest hf htokens hrest => ?_⟩
  rw [List.map_append, List.append_assoc] at htokens
  -- The mark behind the tokens is of the kind that stood there before, so the chain gets that far.
  obtain ⟨d₁, hchain, hd₁, htokens₁, -⟩ := h f _ hf htokens (by
    rintro _ ⟨⟩
    exact .inl rfl)
  obtain ⟨d₂, hbump, hd₂, htokens₂, hprev₂⟩ := exists_bump hd₁ htokens₁ hkind
  obtain ⟨d₃, hoperand, hd₃, htokens₃, hprev₃⟩ :=
    hright.again d₂ rest hd₂ htokens₂ (by rw [hprev₂, hprev]; rfl) hrest
  have hkind₁ : d₁.current.kind = c.current.kind := by
    rw [Cursor.current_of_tokens htokens₁]
    rfl
  refine ⟨d₃, ?_, hd₃, htokens₃, hprev₃⟩
  rw [Nat.add_assoc, Nat.add_comm 1, hchain, hstep hkind₁ hbump hoperand hprev₃]

lemma Begun.col (h : Begun offset (budget + 1) ws start left c)
    (hkind : c.current.kind = .mark .col) (hprev : d.prevEnd = c.current.span.stop)
    (hright : Taken offset (Node.moved offset) Kind.IsCalm (operand budget) d us right e) :
    Begun offset budget (ws ++ c.current :: us) start
      (.rune .tisgal [left, right] ⟨start, e.prevEnd⟩) e := by
  refine h.step (by simp [hkind]) hprev hright fun hkind' hbump hrun hend => ?_
  rw [chain_of_col (hkind'.trans hkind) hbump hrun, hend]
  rfl

lemma Begun.tis {name : String} {place : Span}
    (h : Begun offset (budget + 1) ws start (.face name place) c)
    (hkind : c.current.kind = .mark .tis) (hprev : d.prevEnd = c.current.span.stop)
    (hright : Taken offset (Node.moved offset) Kind.IsCalm (operand budget) d us right e) :
    Begun offset budget (ws ++ c.current :: us) start (.faced name right ⟨start, e.prevEnd⟩) e := by
  refine h.step (by simp [hkind]) hprev hright fun hkind' hbump hrun hend => ?_
  rw [Node.moved, chain_of_tis (hkind'.trans hkind) hbump hrun, hend]
  rfl

lemma Begun.covers (h : Begun offset budget ws start left c)
    (hprev : d.prevEnd = c.current.span.stop) {budget : Nat}
    (hright : Taken offset (Node.moved offset) Kind.IsCalm (operand budget) d us right e) :
    Covers (ws ++ c.current :: us) ⟨start, e.prevEnd⟩ := by
  obtain ⟨⟨first, hfirst, rfl⟩, -⟩ := h
  have hstop : e.prevEnd = lastStop c.prevEnd (ws ++ c.current :: us) := by
    rw [hright.prevEnd, hprev, lastStop_append]
    rfl
  rw [hstop]
  exact covers_lastStop (by simp [hfirst]) c.prevEnd

/-- An expression that is begun is read alone if nothing behind it goes on with it. -/
lemma Begun.readAlone (h : Begun offset budget ws start left c) (hbudget : 0 < budget) :
    ReadAlone offset ws left := by
  obtain ⟨-, spent, h⟩ := h
  obtain ⟨budget, rfl⟩ := Nat.exists_eq_add_one_of_ne_zero hbudget.ne'
  refine ⟨spent + (budget + 1), fun d rest hd htokens hrest => ?_⟩
  obtain ⟨d', hrun, -, htokens', -⟩ := h d rest hd htokens fun t ht => .inr (hrest t ht)
  refine ⟨d', ?_, htokens'⟩
  rw [hrun, chain_of_calm]
  exact hrest d'.current (by rw [← htokens']; rfl)

end

/-! ## All readers -/

/-- All nodes of the tree are placed among the tokens, or all but the tree itself, whose span covers
all of them. -/
def Filled (offset : Nat) (us : List Token) (n : Node) : Prop :=
  n.All fun m => Placed offset us m ∨ m = n ∧ n.isCell = false ∧ Covers us n.span

/-- The node is a cell whose span covers the tokens up to the last one. -/
def Trailing (offset : Nat) (us : List Token) (n : Node) : Prop :=
  ∃ ts, ts <:+ us ∧ n.isCell = true ∧ Covers ts n.span ∧ ReadBetween offset ts n

section

variable {offset budget start : Nat} {ws us : List Token} {n : Node} {c e : Cursor}

lemma Filled.rune {r : Rune} {args : List Node} {span : Span} (hcovers : Covers us span)
    (hargs : AllPlaced offset us args) : Filled offset us (.rune r args span) :=
  Node.all_rune.2 ⟨.inr ⟨rfl, rfl, hcovers⟩, fun arg harg => (hargs arg harg).imp fun _ => .inl⟩

lemma Filled.faced {label : String} {value : Node} {span : Span} (hcovers : Covers us span)
    (hvalue : AllPlaced offset us [value]) : Filled offset us (.faced label value span) :=
  Node.all_faced.2 ⟨.inr ⟨rfl, rfl, hcovers⟩, (hvalue value (by simp)).imp fun _ => .inl⟩

lemma Filled.leaf (hleaf : n.subtrees = [n]) (hcell : n.isCell = false)
    (hcovers : Covers us n.span) : Filled offset us n := by
  intro m hm
  rw [hleaf, List.mem_singleton] at hm
  exact .inr ⟨hm, hcell, hcovers⟩

lemma Filled.all_placed (h : Filled offset ws n) (hbegun : Begun offset budget ws start n c)
    (hbudget : 0 < budget) : n.All (Placed offset ws) := by
  intro m hm
  rcases h m hm with hm | ⟨rfl, hcell, hcovers⟩
  · exact hm
  · exact .alone (List.infix_refl ws) hcell hcovers (hbegun.readAlone hbudget)

lemma Trailing.mono {vs : List Token} (h : Trailing offset us n) (hus : us <:+ vs) :
    Trailing offset vs n := by
  obtain ⟨ts, hts, h⟩ := h
  exact ⟨ts, hts.trans hus, h⟩

/-- With a bracket on either side, a cell at the end of the tokens is placed. -/
lemma Trailing.placed (h : Trailing offset us n) {u : Token} (hu : u.kind = .mark .ser)
    (t : Token) : Placed offset ([t] ++ (us ++ [u])) n := by
  obtain ⟨ts, ⟨vs, rfl⟩, hcell, hcovers, hread⟩ := h
  rcases List.eq_nil_or_concat' vs with rfl | ⟨vs, v, rfl⟩
  · exact .between (List.infix_refl _) hcell hcovers hu hread
  · have hinfix : v :: ts ++ [u] <:+: [t] ++ (vs ++ [v] ++ ts ++ [u]) := ⟨t :: vs, [], by simp⟩
    exact .between hinfix hcell hcovers hu hread

end

/-- Two expressions with a space between them are replayed one after the other. -/
lemma replays_pair {α : Type} {offset budget more : Nat} {move : α → α}
    {f g : Node → Node → Parse α} {c : Cursor} {Q : List Token → α → Cursor → Prop}
    (h : ∀ c, Replays offset (Node.moved offset) Kind.IsCalm (expr budget) (expr more) c
      fun us n _ => us ≠ [] ∧ n.All (Placed offset us))
    (hf : ∀ left right d us, us ≠ [] → AllPlaced offset us [left, right] →
      Replays offset move Kind.IsCalm (f left right)
        (g (left.moved offset) (right.moved offset)) d fun vs => Q (us ++ vs)) :
    Replays offset move Kind.IsCalm
      (do
        let left ← expr budget
        expect .ace
        let right ← expr budget
        f left right)
      (do
        let left ← expr more
        expect .ace
        let right ← expr more
        g left right) c Q := by
  refine (h c).bind ?_
  rintro left d us - ⟨hne, hleft⟩
  refine (replays_expect (by simp) d).bind ?_
  rintro _ e _ - ⟨rfl, -⟩
  refine (h e).bind ?_
  rintro right i vs - ⟨-, hright⟩
  have hpair := (AllPlaced.one hleft).append ((AllPlaced.one hright).right [d.current])
  refine (hf left right i _ (by simp [hne]) hpair).imp ?_
  rintro ws a j - hQ
  simpa using hQ

lemma gateCall_of_calm {budget start : Nat} {target : Node} {c : Cursor}
    (h : c.current.kind.IsCalm) : gateCall (budget + 1) start target c = (.ok target, c) := by
  rw [gateCall, Attempt.bind_apply]
  simp only [peek]
  rw [if_neg h.ne_pal]
  rfl

/-- The target of a call, which is a leaf, is placed in its own token. -/
lemma all_placed_target {offset : Nat} {t : Token} {target : Node} (hkind : t.kind ≠ .eof)
    (hleaf : target.subtrees = [target]) (hcell : target.isCell = false)
    (hspan : target.span = t.span)
    (hread : ∀ {d d' : Cursor}, bump d = (.ok (t.moved offset), d') → operand 2 d =
      gateCall 1 (t.span.start + offset) (target.moved offset) d') :
    target.All (Placed offset [t]) := by
  intro m hm
  rw [hleaf, List.mem_singleton] at hm
  subst hm
  refine .alone (List.infix_refl _) hcell ⟨t, t, rfl, rfl, hspan⟩
    ⟨3, fun d rest hd htokens hrest => ?_⟩
  obtain ⟨d', hbump, -, htokens', -⟩ := exists_bump hd htokens hkind
  have hcalm : d'.current.kind.IsCalm := by
    obtain rfl : d'.tokens = rest := htokens'
    exact hrest d'.current rfl
  refine ⟨d', ?_, htokens'⟩
  rw [expr_of_operand ((hread hbump).trans (gateCall_of_calm hcalm)), chain_of_calm hcalm]

/-- The target of a call, with pairs behind it or not, is filled. -/
lemma Filled.call {offset : Nat} {t : Token} {us : List Token} {target n : Node} {span : Span}
    (htarget : target.All (Placed offset [t]))
    (h : us = [] ∧ n = target ∨
      ∃ args, n = .rune .centis (target :: args) span ∧ AllPlaced offset us args)
    (hcovers : Covers ([t] ++ us) span) : Filled offset ([t] ++ us) n := by
  rcases h with ⟨rfl, rfl⟩ | ⟨args, rfl, hargs⟩
  · exact htarget.imp fun m hm => .inl hm
  · exact .rune hcovers ((AllPlaced.one htarget).append hargs)

variable (offset extra : Nat)

mutual

theorem replays_expr : ∀ (budget : Nat) (c : Cursor),
    Replays offset (Node.moved offset) Kind.IsCalm (expr budget) (expr (budget + extra)) c
      fun us n _ => us ≠ [] ∧ n.All (Placed offset us)
  | 0, _ => by
      rw [expr]
      exact replays_endOfInput
  | budget + 1, c => by
      rw [Nat.add_right_comm, expr, expr]
      refine .peek ((replays_operand budget c).bind ?_)
      rintro left e us htaken ⟨-, hne, hfilled⟩
      refine (replays_chain budget _ left e (htaken.begun hne) hfilled).imp ?_
      rintro vs n _ - hn
      exact ⟨by simp [hne], by simp [hne], hn⟩

theorem replays_chain : ∀ (budget start : Nat) (left : Node) (c : Cursor) {ws : List Token},
    Begun offset (budget + extra) ws start left c → Filled offset ws left →
    Replays offset (Node.moved offset) Kind.IsCalm (chain budget start left)
      (chain (budget + extra) (start + offset) (left.moved offset)) c
      fun us n _ => n.All (Placed offset (ws ++ us))
  | 0, _, _, _, _, _, _ => by
      rw [chain]
      exact replays_endOfInput
  | budget + 1, start, left, c, ws, hbegun, hfilled => by
      have hleft := hfilled.all_placed hbegun (by omega)
      rw [Nat.add_right_comm] at hbegun ⊢
      rw [chain, chain]
      by_cases hcol : c.current.kind = .mark .col
      · refine .peek ?_
        simp only [Token.kind_moved, hcol]
        refine (replays_bump (by simp [hcol])).bind ?_
        rintro _ d _ - ⟨rfl, rfl, hprev⟩
        refine (replays_operand budget d).bind ?_
        rintro right e vs htaken ⟨hbudget, hne, hright⟩
        refine replays_applied.bind ?_
        rintro _ _ _ - ⟨rfl, rfl, rfl⟩
        have hplaced := hright.all_placed (htaken.begun hne) (by omega)
        have hparts := (AllPlaced.one hleft).append ((AllPlaced.one hplaced).right [c.current])
        refine (replays_chain budget start _ _ (hbegun.col hcol hprev htaken)
          (.rune (hbegun.covers hprev htaken) hparts)).imp ?_
        rintro xs n _ - hn
        exact ⟨by simp, by simpa using hn⟩
      by_cases htis : c.current.kind = .mark .tis
      · refine .peek ?_
        simp only [Token.kind_moved, htis]
        refine (replays_bump (by simp [htis])).bind ?_
        rintro _ d _ - ⟨rfl, rfl, hprev⟩
        refine (replays_operand budget d).bind ?_
        rintro right e vs htaken ⟨hbudget, hne, hright⟩
        cases left with
        | face name place =>
            refine replays_spanFrom.bind ?_
            rintro _ _ _ - ⟨rfl, rfl, rfl⟩
            have hplaced := hright.all_placed (htaken.begun hne) (by omega)
            have hparts := ((AllPlaced.one hplaced).right [c.current]).right ws
            refine (replays_chain budget start _ _ (hbegun.tis htis hprev htaken)
              (.faced (hbegun.covers hprev htaken) hparts)).imp ?_
            rintro xs n _ - hn
            exact ⟨by simp, by simpa using hn⟩
        | _ => exact .fail
      · have hends : ∀ t : Token, t.kind = c.current.kind ∨ t.kind.IsCalm →
            t.kind ≠ .mark .col ∧ t.kind ≠ .mark .tis := by
          rintro t (ht | ht)
          · rw [ht]
            exact ⟨hcol, htis⟩
          · exact ⟨ht.ne_col, ht.ne_tis⟩
        refine .peek_kind (Pure.pure (left.moved offset)) ?_ ?_
        · split
          · next hk => exact absurd hk hcol
          · next hk => exact absurd hk htis
          · refine .pure ?_
            rwa [List.append_nil]
        · intro t ht
          split
          · next hk => exact absurd hk (hends t ht).1
          · next hk => exact absurd hk (hends t ht).2
          · rfl

theorem replays_operand : ∀ (budget : Nat) (c : Cursor),
    Replays offset (Node.moved offset) Kind.IsCalm (operand budget) (operand (budget + extra)) c
      fun us n _ => 0 < budget ∧ us ≠ [] ∧ Filled offset us n
  | 0, _ => by
      rw [operand]
      exact replays_endOfInput
  | budget + 1, c => by
      -- Which tokens the tree covers is known only when all of them are taken.
      suffices hread : Replays offset (Node.moved offset) Kind.IsCalm (operand (budget + 1))
          (operand (budget + 1 + extra)) c fun us n e =>
            us ≠ [] ∧ (Covers us ⟨c.current.span.start, e.prevEnd⟩ → Filled offset us n) by
        refine hread.imp ?_
        rintro us n e htaken ⟨hne, hfilled⟩
        exact ⟨Nat.succ_pos budget, hne, hfilled (htaken.covers hne)⟩
      rw [Nat.add_right_comm, operand, operand]
      by_cases heof : c.current.kind = .eof
      · intro hc n e hrun
        obtain ⟨t, d, hbump, hrun⟩ := Attempt.bind_eq_ok.1 hrun
        obtain ⟨-, -, rfl, -⟩ := takes_bump c hc t d hbump
        rw [heof] at hrun
        cases hrun
      refine (replays_bump heof).bind ?_
      rintro _ d _ - ⟨rfl, rfl, -⟩
      have hleaf : Covers ([c.current] ++ []) c.current.span :=
        ⟨c.current, c.current, rfl, rfl, rfl⟩
      dsimp only
      rw [Token.kind_moved]
      split
      · next hk =>
          refine (replays_gateCall budget _ (.face c.current.text c.current.span) d).imp ?_
          rintro vs n e - hn
          refine ⟨by simp, Filled.call (all_placed_target heof rfl rfl rfl fun hbump => ?_) hn⟩
          simp only [operand, Attempt.bind_apply, hbump, Token.kind_moved, hk]
          rfl
      · next hk =>
          refine (replays_gateCall budget _ (.buc c.current.span) d).imp ?_
          rintro vs n e - hn
          refine ⟨by simp, Filled.call (all_placed_target heof rfl rfl rfl fun hbump => ?_) hn⟩
          simp only [operand, Attempt.bind_apply, hbump, Token.kind_moved, hk]
          rfl
      · exact .pure ⟨by simp, fun _ => .leaf rfl rfl hleaf⟩
      · exact .pure ⟨by simp, fun _ => .leaf rfl rfl hleaf⟩
      · exact .pure ⟨by simp, fun _ => .leaf rfl rfl hleaf⟩
      · refine (replays_application budget c.current d).imp ?_
        rintro vs _ e - ⟨r, args, rfl, hargs⟩
        exact ⟨by simp, fun hcovers => .rune hcovers (hargs.right [c.current])⟩
      · refine (replays_expect (by simp) d).bind ?_
        rintro _ e _ - ⟨rfl, -⟩
        refine (replays_expr budget e).bind ?_
        rintro value f vs - ⟨-, hvalue⟩
        refine (replays_expect (by simp) f).bind ?_
        rintro _ g _ - ⟨rfl, -⟩
        refine replays_applied.imp ?_
        rintro _ _ _ - ⟨rfl, rfl, rfl⟩
        refine ⟨by simp, fun hcovers => .rune hcovers ?_⟩
        exact (((AllPlaced.one hvalue).left _).right [d.current]).right [c.current]
      · refine (replays_expect (by simp) d).bind ?_
        rintro _ e _ - ⟨rfl, -⟩
        refine replays_pair (replays_expr budget) ?_
        rintro left right f vs - hpair
        refine (replays_expect (by simp) f).bind ?_
        rintro _ g _ - ⟨rfl, -⟩
        refine replays_applied.imp ?_
        rintro _ _ _ - ⟨rfl, rfl, rfl⟩
        refine ⟨by simp, fun hcovers => .rune hcovers ?_⟩
        exact ((hpair.left _).right [d.current]).right [c.current]
      · refine (replays_wideList budget d).bind ?_
        rintro args e vs - ⟨-, hargs⟩
        refine replays_applied.imp ?_
        rintro _ _ _ - ⟨rfl, rfl, rfl⟩
        exact ⟨by simp, fun hcovers => .rune hcovers ((hargs.left []).right [c.current])⟩
      · refine (replays_cons budget d).seq ?_
        rintro n e vs - ⟨-, hser, hn⟩
        refine (replays_expect (by simp) e).bind ?_
        rintro _ f _ - ⟨rfl, -⟩
        refine .pure ⟨by simp, by simp, fun _ => hn.imp ?_⟩
        rintro m (hm | hm)
        · exact .inl (hm.mono ⟨[c.current], [e.current], by simp⟩)
        · exact .inl (by simpa using hm.placed hser c.current)
      · exact .fail
      · exact .fail

theorem replays_gateCall : ∀ (budget start : Nat) (target : Node) (c : Cursor),
    Replays offset (Node.moved offset) Kind.IsCalm (gateCall budget start target)
      (gateCall (budget + extra) (start + offset) (target.moved offset)) c fun us n e =>
        us = [] ∧ n = target ∨
          ∃ args, n = .rune .centis (target :: args) ⟨start, e.prevEnd⟩ ∧ AllPlaced offset us args
  | 0, _, _, _ => by
      rw [gateCall]
      exact replays_endOfInput
  | budget + 1, start, target, c => by
      rw [Nat.add_right_comm, gateCall, gateCall]
      by_cases hpal : c.current.kind = .mark .pal
      · refine .peek ?_
        rw [if_pos hpal, Token.kind_moved, if_pos hpal]
        refine (replays_bump (by simp [hpal])).bind ?_
        rintro _ d _ - ⟨rfl, -⟩
        refine .peek ?_
        dsimp only
        by_cases hpar : d.current.kind = .mark .par
        · rw [if_pos hpar, Token.kind_moved, if_pos hpar]
          refine (replays_bump (by simp [hpar])).bind ?_
          rintro _ e _ - ⟨rfl, -⟩
          refine replays_applied.imp ?_
          rintro _ _ _ - ⟨rfl, rfl, rfl⟩
          exact ⟨by simp, by simp, .inr ⟨[], rfl, .nil⟩⟩
        · rw [if_neg hpar, Token.kind_moved, if_neg hpar]
          refine (replays_callPairs budget d).bind ?_
          rintro args e us - ⟨hne, hargs⟩
          refine replays_applied.imp ?_
          rintro _ _ _ - ⟨rfl, rfl, rfl⟩
          exact ⟨by simp [hne], by simp, .inr ⟨args, rfl, (hargs.left []).right [c.current]⟩⟩
      · refine .peek_kind (Pure.pure (target.moved offset)) ?_ fun t ht => if_neg ?_
        · rw [if_neg hpal]
          exact .pure (.inl ⟨rfl, rfl⟩)
        · rcases ht with ht | ht
          · rwa [ht]
          · exact ht.ne_pal

theorem replays_callPairs : ∀ (budget : Nat) (c : Cursor),
    Replays offset (Node.movedAll offset) Kind.IsCalm (callPairs budget)
      (callPairs (budget + extra)) c fun us args _ => us ≠ [] ∧ AllPlaced offset us args
  | 0, _ => by
      rw [callPairs]
      exact replays_endOfInput
  | budget + 1, c => by
      rw [Nat.add_right_comm, callPairs, callPairs]
      refine replays_pair (replays_expr budget) ?_
      rintro name value d us hne hpair
      refine .peek ?_
      by_cases hpar : d.current.kind = .mark .par
      · rw [if_pos hpar, Token.kind_moved, if_pos hpar]
        refine (replays_bump (by simp [hpar])).bind ?_
        rintro _ e _ - ⟨rfl, -⟩
        exact .pure ⟨by simp, by simp [hne], hpair.left _⟩
      · rw [if_neg hpar, Token.kind_moved, if_neg hpar]
        refine (replays_expect (by simp) d).bind ?_
        rintro _ e _ - ⟨rfl, -⟩
        refine (replays_expect (by simp) e).bind ?_
        rintro _ f _ - ⟨rfl, -⟩
        refine (replays_callPairs budget f).bind ?_
        rintro args g vs - ⟨-, hargs⟩
        exact .pure ⟨by simp, by simp [hne],
          hpair.append (((hargs.left []).right [e.current]).right [d.current])⟩

theorem replays_cons : ∀ (budget : Nat) (c : Cursor),
    Replays offset (Node.moved offset) (fun _ => False) (cons budget) (cons (budget + extra)) c
      fun us n e => us ≠ [] ∧ e.current.kind = .mark .ser ∧
        n.All fun m => Placed offset us m ∨ Trailing offset us m
  | 0, _ => by
      rw [cons]
      exact replays_endOfInput
  | budget + 1, c => by
      -- The cell that is read here has its place only once it is known to be read again.
      have hread : Replays offset (Node.moved offset) (fun _ => False) (cons (budget + 1))
          (cons (budget + 1 + extra)) c fun us n e => us ≠ [] ∧ e.current.kind = .mark .ser ∧
            n.All fun m => (Placed offset us m ∨ Trailing offset us m) ∨
              m = n ∧ n.isCell = true ∧ n.span = ⟨c.current.span.start, e.prevEnd⟩ := by
        rw [Nat.add_right_comm, cons, cons]
        refine .peek (((replays_expr budget c).mono (by simp)).bind ?_)
        rintro head d us - ⟨hne, hhead⟩
        by_cases hser : d.current.kind = .mark .ser
        · refine .peek_kind (Pure.pure (head.moved offset)) ?_ fun t ht => if_pos ?_
          · rw [if_pos hser]
            refine .pure ⟨by simp [hne], by simp [hne], hser, ?_⟩
            rw [List.append_nil]
            exact hhead.imp fun m hm => .inl (.inl hm)
          · exact (ht.resolve_right id).trans hser
        · refine .peek ?_
          rw [if_neg hser, Token.kind_moved, if_neg hser]
          refine (replays_expect (by simp) d).bind ?_
          rintro _ e _ - ⟨rfl, -⟩
          refine (replays_cons budget e).bind ?_
          rintro tail f vs - ⟨-, hser', htail⟩
          refine replays_spanFrom.bind ?_
          rintro _ _ _ - ⟨rfl, rfl, rfl⟩
          refine .pure ⟨by simp, by simp [hne], by simp, hser', ?_⟩
          have hvs : vs <:+ us ++ ([d.current] ++ (vs ++ ([] ++ []))) :=
            ⟨us ++ [d.current], by simp⟩
          refine Node.all_cell.2 ⟨.inr ⟨rfl, rfl, rfl⟩, ?_, ?_⟩
          · exact hhead.imp fun m hm => .inl (.inl (hm.mono (List.prefix_append _ _).isInfix))
          · exact htail.imp fun m hm => .inl (hm.imp (·.mono hvs.isInfix) (·.mono hvs))
      refine hread.imp ?_
      rintro us n e htaken ⟨hne, hser, hparts⟩
      refine ⟨hne, hser, hparts.imp ?_⟩
      rintro m (hm | ⟨rfl, hcell, hspan⟩)
      · exact hm
      · refine .inr ⟨us, List.suffix_refl us, hcell, hspan ▸ htaken.covers hne, ?_⟩
        refine ⟨budget + 1 + extra, fun d rest hd htokens hrest => ?_⟩
        obtain ⟨d', hrun, hd', htokens', -⟩ := htaken.again
          { d with prevEnd := c.prevEnd + offset } rest ⟨hd.ended, hd.legal⟩ htokens rfl
          fun t ht => .inl ((hrest t ht).trans hser.symm)
        exact ⟨d', cons_of_prevEnd hrun, hd', htokens'⟩

theorem replays_wideList : ∀ (budget : Nat) (c : Cursor),
    Replays offset (Node.movedAll offset) Kind.IsCalm (wideList budget)
      (wideList (budget + extra)) c fun us args _ => us ≠ [] ∧ AllPlaced offset us args
  | 0, _ => by
      rw [wideList]
      exact replays_endOfInput
  | budget + 1, c => by
      rw [Nat.add_right_comm, wideList, wideList]
      refine (replays_expr budget c).bind ?_
      rintro node d us - ⟨hne, hnode⟩
      refine .peek ?_
      by_cases hpar : d.current.kind = .mark .par
      · rw [if_pos hpar, Token.kind_moved, if_pos hpar]
        refine (replays_bump (by simp [hpar])).bind ?_
        rintro _ e _ - ⟨rfl, -⟩
        exact .pure ⟨by simp, by simp [hne], (AllPlaced.one hnode).left _⟩
      · rw [if_neg hpar, Token.kind_moved, if_neg hpar]
        refine (replays_expect (by simp) d).bind ?_
        rintro _ e _ - ⟨rfl, -⟩
        refine (replays_wideList budget e).bind ?_
        rintro args f vs - ⟨-, hargs⟩
        exact .pure ⟨by simp, by simp [hne],
          (AllPlaced.one hnode).append ((hargs.left []).right [d.current])⟩

theorem replays_application : ∀ (budget : Nat) (token : Token) (c : Cursor),
    Replays offset (Node.moved offset) Kind.IsCalm (application budget token)
      (application (budget + extra) (token.moved offset)) c fun us n e =>
        ∃ r args, n = .rune r args ⟨token.span.start, e.prevEnd⟩ ∧ AllPlaced offset us args
  | 0, _, _ => by
      rw [application]
      exact replays_endOfInput
  | budget + 1, token, c => by
      rw [Nat.add_right_comm, application, application]
      simp only [Token.text_moved]
      cases hs : (Rune.ofText token.text).signature? with
      | none => exact .fail
      | some s =>
          by_cases hpal : c.current.kind = .mark .pal
          · refine .peek ?_
            rw [if_pos hpal, Token.kind_moved, if_pos hpal]
            refine (replays_wide budget _ s token.span c).bind ?_
            rintro args d us - ⟨hne, hargs⟩
            refine replays_applied.imp ?_
            rintro _ _ _ - ⟨rfl, rfl, rfl⟩
            exact ⟨by simp [hne], _, args, rfl, hargs.left []⟩
          · refine .peek_kind _ ?_ fun t ht => if_neg ?_
            · rw [if_neg hpal]
              refine (replays_tall budget _ s token.span c).bind ?_
              rintro args d us - hargs
              refine replays_applied.imp ?_
              rintro _ _ _ - ⟨rfl, rfl, rfl⟩
              exact ⟨_, args, rfl, hargs.left []⟩
            · rcases ht with ht | ht
              · rwa [ht]
              · exact ht.ne_pal

theorem replays_wide : ∀ (budget : Nat) (r : Rune) (s : Signature) (span : Span) (c : Cursor),
    Replays offset (Node.movedAll offset) Kind.IsCalm (wide budget r s span)
      (wide (budget + extra) r s (span.moved offset)) c fun us args _ =>
        us ≠ [] ∧ AllPlaced offset us args
  | 0, _, _, _, _ => by
      rw [wide]
      exact replays_endOfInput
  | budget + 1, r, s, span, c => by
      rw [Nat.add_right_comm, wide_succ, wide_succ]
      by_cases harms : s.tail = .arms
      · rw [if_pos harms]
        exact .fail
      rw [if_neg harms, if_neg harms]
      refine (replays_expect (by simp) c).bind ?_
      rintro _ d _ - ⟨rfl, -⟩
      have hargs : Replays offset (Node.movedAll offset) Kind.IsCalm (wideArgs budget s)
          (wideArgs (budget + extra) s) d fun us args _ => us ≠ [] ∧ AllPlaced offset us args := by
        refine .peek ?_
        by_cases hpairs : s.tail = .pairs
        · rw [if_pos hpairs, if_pos hpairs]
          exact (replays_wideJogging budget s d).imp fun _ _ _ _ h => ⟨h.1, h⟩
        rw [if_neg hpairs, if_neg hpairs]
        by_cases hpar : d.current.kind = .mark .par
        · rw [if_pos hpar, Token.kind_moved, if_pos hpar]
          refine (replays_bump (by simp [hpar])).bind ?_
          rintro _ e _ - ⟨rfl, -⟩
          exact .pure ⟨by simp, by simp, .nil⟩
        · rw [if_neg hpar, Token.kind_moved, if_neg hpar]
          exact (replays_wideList budget d).imp fun _ _ _ _ h => ⟨h.1, h⟩
      refine hargs.bind ?_
      rintro args e us - ⟨-, hargs⟩
      rw [Node.length_movedAll]
      split
      · exact .pure ⟨by simp, (hargs.left []).right [c.current]⟩
      · exact .fail

theorem replays_wideFixed : ∀ (budget count : Nat) (c : Cursor),
    Replays offset (Node.movedAll offset) Kind.IsCalm (wideFixed budget count)
      (wideFixed (budget + extra) count) c fun us args _ => AllPlaced offset us args
  | _, 0, _ => by
      rw [wideFixed, wideFixed]
      exact .pure .nil
  | 0, _ + 1, _ => by
      rw [wideFixed]
      exact replays_endOfInput
  | budget + 1, 1, c => by
      rw [Nat.add_right_comm, wideFixed, wideFixed]
      refine (replays_expr budget c).bind ?_
      rintro node d us - ⟨-, hnode⟩
      exact .pure ((AllPlaced.one hnode).left [])
  | budget + 1, count + 2, c => by
      rw [Nat.add_right_comm, wideFixed, wideFixed]
      refine (replays_expr budget c).bind ?_
      rintro node d us - ⟨-, hnode⟩
      refine (replays_expect (by simp) d).bind ?_
      rintro _ e _ - ⟨rfl, -⟩
      refine (replays_wideFixed budget (count + 1) e).bind ?_
      rintro args f vs - hargs
      exact .pure ((AllPlaced.one hnode).append ((hargs.left []).right [d.current]))

theorem replays_wideJogging : ∀ (budget : Nat) (s : Signature) (c : Cursor),
    Replays offset (Node.movedAll offset) Kind.IsCalm (wideJogging budget s)
      (wideJogging (budget + extra) s) c fun us args _ => us ≠ [] ∧ AllPlaced offset us args
  | 0, _, _ => by
      rw [wideJogging]
      exact replays_endOfInput
  | budget + 1, s, c => by
      rw [Nat.add_right_comm, wideJogging, wideJogging]
      refine (replays_wideFixed budget s.args c).bind ?_
      rintro fixed d us - hfixed
      refine .peek ?_
      by_cases hpar : d.current.kind = .mark .par
      · rw [if_pos hpar, Token.kind_moved, if_pos hpar]
        refine (replays_bump (by simp [hpar])).bind ?_
        rintro _ e _ - ⟨rfl, -⟩
        exact .pure ⟨by simp, by simp, hfixed.left _⟩
      · have hpairs : ∀ e : Cursor, Replays offset (Node.movedAll offset) Kind.IsCalm
            (do let pairs ← widePairs budget s; pure (fixed ++ pairs))
            (do
              let pairs ← widePairs (budget + extra) s
              pure (Node.movedAll offset fixed ++ pairs)) e
            fun vs args _ =>
              ∃ pairs, args = fixed ++ pairs ∧ vs ≠ [] ∧ AllPlaced offset vs pairs := by
          intro e
          refine (replays_widePairs budget s e).bind ?_
          rintro pairs f vs - ⟨hne, hargs⟩
          rw [← Node.movedAll_append]
          exact .pure ⟨pairs, rfl, by simp [hne], hargs.left []⟩
        rw [if_neg hpar, Token.kind_moved, if_neg hpar]
        dsimp only
        by_cases hpos : 0 < s.args
        · rw [if_pos hpos, if_pos hpos]
          refine (replays_expect (by simp) d).bind ?_
          rintro _ e _ - ⟨rfl, -⟩
          refine (hpairs e).imp ?_
          rintro vs _ _ - ⟨pairs, rfl, -, hargs⟩
          exact ⟨by simp, by simp, hfixed.append (hargs.right [d.current])⟩
        · rw [if_neg hpos, if_neg hpos]
          refine (hpairs d).imp ?_
          rintro vs _ _ - ⟨pairs, rfl, hne, hargs⟩
          exact ⟨hne, by simp [hne], hfixed.append hargs⟩

theorem replays_widePairs : ∀ (budget : Nat) (s : Signature) (c : Cursor),
    Replays offset (Node.movedAll offset) Kind.IsCalm (widePairs budget s)
      (widePairs (budget + extra) s) c fun us args _ => us ≠ [] ∧ AllPlaced offset us args
  | 0, _, _ => by
      rw [widePairs]
      exact replays_endOfInput
  | budget + 1, s, c => by
      rw [Nat.add_right_comm, widePairs, widePairs]
      refine replays_pair (replays_expr budget) ?_
      rintro name value d us hne hpair
      refine .peek ?_
      rw [Token.kind_moved]
      by_cases hpar : d.current.kind = .mark .par
      · rw [if_pos hpar, if_pos hpar]
        refine (replays_bump (by simp [hpar])).bind ?_
        rintro _ e _ - ⟨rfl, -⟩
        exact .pure ⟨by simp, by simp [hne], hpair.left _⟩
      rw [if_neg hpar, if_neg hpar]
      by_cases hcom : d.current.kind = .mark .com
      · rw [if_pos hcom, if_pos hcom]
        refine (replays_bump (by simp [hcom])).bind ?_
        rintro _ e _ - ⟨rfl, -⟩
        refine (replays_expect (by simp) e).bind ?_
        rintro _ f _ - ⟨rfl, -⟩
        refine (replays_widePairs budget s f).bind ?_
        rintro args g vs - ⟨-, hargs⟩
        exact .pure ⟨by simp, by simp [hne],
          hpair.append (((hargs.left []).right [e.current]).right [d.current])⟩
      rw [if_neg hcom, if_neg hcom]
      by_cases hace : d.current.kind = .ace ∧ 0 < s.post
      · rw [if_pos hace, if_pos hace]
        refine (replays_bump (by simp [hace.1])).bind ?_
        rintro _ e _ - ⟨rfl, -⟩
        refine (replays_wideList budget e).bind ?_
        rintro args f vs - ⟨-, hargs⟩
        exact .pure ⟨by simp, by simp [hne], hpair.append ((hargs.left []).right [d.current])⟩
      · rw [if_neg hace]
        exact .fail

theorem replays_tall : ∀ (budget : Nat) (r : Rune) (s : Signature) (span : Span) (c : Cursor),
    Replays offset (Node.movedAll offset) Kind.IsCalm (tall budget r s span)
      (tall (budget + extra) r s (span.moved offset)) c fun us args _ => AllPlaced offset us args
  | 0, _, _, _, _ => by
      rw [tall]
      exact replays_endOfInput
  | budget + 1, r, s, span, c => by
      rw [Nat.add_right_comm, tall_succ, tall_succ]
      refine (replays_tallFixed budget s.args c).bind ?_
      rintro fixed d us - hfixed
      have hitems : Replays offset (Node.movedAll offset) Kind.IsCalm (tallItems budget r s span)
          (tallItems (budget + extra) r s (span.moved offset)) d fun vs items _ =>
            AllPlaced offset vs items := by
        unfold tallItems
        cases hcloser : s.tail.closer? with
        | none => exact .pure .nil
        | some closer =>
            have hplain : closer ≠ .eof := by
              cases ht : s.tail <;> simp_all [Tail.closer?] <;> subst hcloser <;> simp
            exact replays_tallUntil budget closer r span d hplain
      refine hitems.bind ?_
      rintro items e vs - hitems
      rw [Node.length_movedAll]
      by_cases hodd : s.tail = .pairs ∧ items.length % 2 ≠ 0
      · rw [if_pos hodd]
        exact .fail
      rw [if_neg hodd, if_neg hodd]
      refine (replays_tallFixed budget s.post e).bind ?_
      rintro post f ws - hpost
      rw [← Node.movedAll_append, ← Node.movedAll_append, List.append_assoc]
      exact .pure (hfixed.append (hitems.append (hpost.left [])))

theorem replays_tallFixed : ∀ (budget count : Nat) (c : Cursor),
    Replays offset (Node.movedAll offset) Kind.IsCalm (tallFixed budget count)
      (tallFixed (budget + extra) count) c fun us args _ => AllPlaced offset us args
  | _, 0, _ => by
      rw [tallFixed, tallFixed]
      exact .pure .nil
  | 0, _ + 1, _ => by
      rw [tallFixed]
      exact replays_endOfInput
  | budget + 1, count + 1, c => by
      rw [Nat.add_right_comm, tallFixed, tallFixed]
      refine (replays_expectGap c).bind ?_
      rintro _ d _ - rfl
      refine (replays_expr budget d).bind ?_
      rintro node e us - ⟨-, hnode⟩
      refine (replays_tallFixed budget count e).bind ?_
      rintro args f vs - hargs
      exact .pure (((AllPlaced.one hnode).append (hargs.left [])).right [c.current])

theorem replays_tallUntil : ∀ (budget : Nat) (closer : Kind) (r : Rune) (span : Span)
    (c : Cursor), closer ≠ .eof → Replays offset (Node.movedAll offset) Kind.IsCalm
      (tallUntil budget closer r span) (tallUntil (budget + extra) closer r (span.moved offset)) c
      fun us args _ => AllPlaced offset us args
  | 0, _, _, _, _, _ => by
      rw [tallUntil]
      exact replays_endOfInput
  | budget + 1, closer, r, span, c, hplain => by
      rw [Nat.add_right_comm, tallUntil, tallUntil]
      refine .peek ?_
      by_cases heof : c.current.kind = .eof
      · rw [if_pos heof]
        exact .fail
      rw [if_neg heof, Token.kind_moved, if_neg heof]
      refine (replays_expectGap c).bind ?_
      rintro _ d _ - rfl
      refine .peek ?_
      rw [Token.kind_moved]
      by_cases hcloser : d.current.kind = closer
      · rw [if_pos hcloser, if_pos hcloser]
        refine (replays_bump (hcloser ▸ hplain)).bind ?_
        rintro _ e _ - ⟨rfl, -⟩
        exact .pure ⟨by simp, by simp, .nil⟩
      rw [if_neg hcloser, if_neg hcloser]
      by_cases heof' : d.current.kind = .eof
      · rw [if_pos heof']
        exact .fail
      rw [if_neg heof', if_neg heof']
      refine (replays_expr budget d).bind ?_
      rintro node e us - ⟨hne, hnode⟩
      refine (replays_tallUntil budget closer r span e hplain).bind ?_
      rintro args f vs - hargs
      exact .pure ⟨by simp [hne], by simp,
        ((AllPlaced.one hnode).append (hargs.left [])).right [c.current]⟩

end

end Parse

end Runic
