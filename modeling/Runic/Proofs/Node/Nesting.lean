import Runic.Proofs.Canonical.Slots
import Runic.Proofs.Node.Excerpt

/-!
# How the nodes of a tree stand in its source

A reader only moves forward, and the span of a node goes from the first token of the node to the
last.  So the parts of a node stand inside of it, one behind the other.

* `InOrder` — trees stand between two offsets, one behind the other.
* `Parse.Lays` — what a reader reads stands behind what was read before.  There is one rule for
  each way in which readers are put together.
* `Parse.lays_expr` — **all readers do so**, with one lemma for each, by recursion on the budget.
* `isSound_of_parse` — what holds of every node that was read.
-/

namespace Runic

/-! ## Trees in order -/

namespace Node

/-- The trees right under a node, in the order of the source. -/
def children : Node → List Node
  | faced _ value _ => [value]
  | rune _ args _ => args
  | cell head tail _ => [head, tail]
  | buc _ | pat _ | dot _ | face _ _ | num _ _ => []

lemma all_iff_children {p : Node → Prop} {n : Node} :
    n.All p ↔ p n ∧ ∀ k ∈ n.children, k.All p := by
  cases n <;> simp [children]

end Node

/-- The trees stand between the offsets `start` and `stop`, one behind the other. -/
structure InOrder (start : Nat) (nodes : List Node) (stop : Nat) : Prop where
  le : start ≤ stop
  within : ∀ n ∈ nodes, start ≤ n.span.start ∧ n.span.start ≤ n.span.stop ∧ n.span.stop ≤ stop
  apart : nodes.Pairwise fun m n => m.span.stop ≤ n.span.start

/-- The children of the node stand inside of its span, one behind the other. -/
def Node.IsNested (n : Node) : Prop := InOrder n.span.start n.children n.span.stop

/-- The trees stand in order between the offsets, and every node inside of them is nested. -/
structure Laid (start : Nat) (nodes : List Node) (stop : Nat) : Prop where
  inOrder : InOrder start nodes stop
  nested : ∀ n ∈ nodes, n.All Node.IsNested

namespace Laid

variable {start mid stop : Nat} {ms ns : List Node}

lemma nil (h : start ≤ stop) : Laid start [] stop where
  inOrder := ⟨h, List.forall_mem_nil _, .nil⟩
  nested := List.forall_mem_nil _

lemma append (hm : Laid start ms mid) (hn : Laid mid ns stop) : Laid start (ms ++ ns) stop where
  inOrder := by
    have hle := hm.inOrder.le
    have hle' := hn.inOrder.le
    refine ⟨hle.trans hle', List.forall_mem_append.2 ⟨fun m h => ?_, fun n h => ?_⟩, ?_⟩
    · obtain ⟨hstart, hspan, hstop⟩ := hm.inOrder.within m h
      exact ⟨hstart, hspan, hstop.trans hle'⟩
    · obtain ⟨hstart, hspan, hstop⟩ := hn.inOrder.within n h
      exact ⟨hle.trans hstart, hspan, hstop⟩
    · refine List.pairwise_append.2 ⟨hm.inOrder.apart, hn.inOrder.apart, fun m h n h' => ?_⟩
      exact (hm.inOrder.within m h).2.2.trans (hn.inOrder.within n h').1
  nested := List.forall_mem_append.2 ⟨hm.nested, hn.nested⟩

/-- A node over some of the trees is laid as well, if its span is the whole stretch from `start` to
`stop`. -/
lemma single {n : Node} (h : Laid start ns stop) (hspan : n.span = ⟨start, stop⟩)
    (hchildren : n.children.Sublist ns) : Laid start [n] stop where
  inOrder := by
    refine ⟨h.inOrder.le, List.forall_mem_singleton.2 ?_, List.pairwise_singleton _ _⟩
    rw [hspan]
    exact ⟨Nat.le_refl _, h.inOrder.le, Nat.le_refl _⟩
  nested := by
    refine List.forall_mem_singleton.2 (Node.all_iff_children.2 ⟨?_, fun k hk => ?_⟩)
    · rw [Node.IsNested, hspan]
      exact ⟨h.inOrder.le, fun k hk => h.inOrder.within k (hchildren.subset hk),
        h.inOrder.apart.sublist hchildren⟩
    · exact h.nested k (hchildren.subset hk)

end Laid

/-! ## Readers move forward -/

/-- The tokens that the cursor shows and will show tile the source from `prevEnd` on, and the last
of them is empty. -/
structure Cursor.Steady (c : Cursor) : Prop where
  tiles : ∃ stop, Tiles c.prevEnd c.tokens stop
  last : ∀ t ∈ c.tokens.getLast?, t.span.start = t.span.stop

lemma Cursor.Steady.current {c : Cursor} (h : c.Steady) :
    c.current.span.start = c.prevEnd ∧ c.prevEnd ≤ c.current.span.stop := by
  obtain ⟨stop, hstart, hle, -⟩ := h.tiles
  exact ⟨hstart, hle⟩

namespace Parse

/-- If the trees `before` are laid from `start` to where the cursor is, then the reader leads to a
cursor up to which `after` of its result is laid. -/
def Lays {α : Type} (start : Nat) (before : List Node) (p : Parse α) (after : α → List Node) :
    Prop :=
  ∀ c : Cursor, c.Steady → Laid start before c.prevEnd →
    p.Meets c (fun _ => True) fun a d => d.Steady ∧ Laid start (after a) d.prevEnd

/-- Wherever the reader starts, it lays some trees behind those that were read before. -/
def Adds {α : Type} (p : Parse α) (parts : α → List Node) : Prop :=
  ∀ start before, Lays start before p fun a => before ++ parts a

variable {α β : Type} {start : Nat} {before : List Node} {after : α → List Node}

namespace Lays

lemma pure {a : α} (h : after a = before) : Lays start before (Pure.pure a) after := by
  intro c hc hbefore
  refine .pure ⟨hc, ?_⟩
  rwa [h]

lemma fail {span : Span} {fault : ParseFault} : Lays start before (Parse.fail span fault) after :=
  fun _ _ _ => .fail trivial

lemma bind {p : Parse β} {f : β → Parse α} {mid : β → List Node} (hp : Lays start before p mid)
    (hf : ∀ b, Lays start (mid b) (f b) after) : Lays start before (p >>= f) after :=
  fun c hc hbefore => (hp c hc hbefore).bind fun b d hd => hf b d hd.1 hd.2

lemma ite {condition : Prop} [Decidable condition] {p q : Parse α}
    (hp : Lays start before p after) (hq : Lays start before q after) :
    Lays start before (if condition then p else q) after := by
  split
  · exact hp
  · exact hq

lemma peek {f : Token → Parse α} (h : ∀ t, Lays start before (f t) after) :
    Lays start before (Parse.peek >>= f) after :=
  fun c hc hbefore => h c.current c hc hbefore

/-- A reader that looks at a token may start a stretch of its own there. -/
lemma peekStart {f : Token → Parse α} (h : ∀ t : Token, Lays t.span.start [] (f t) after) :
    Lays start before (Parse.peek >>= f) fun a => before ++ after a := by
  intro c hc hbefore
  have hstart := hc.current.1
  have hf := h c.current c hc (.nil (Nat.le_of_eq hstart))
  refine Attempt.Meets.imp hf fun a d hd => ⟨hd.1, hbefore.append ?_⟩
  rw [← hstart]
  exact hd.2

end Lays

lemma Adds.bind {p : Parse β} {f : β → Parse α} {parts : β → List Node} (hp : Adds p parts)
    (hf : ∀ b, Lays start (before ++ parts b) (f b) after) : Lays start before (p >>= f) after :=
  (hp start before).bind hf

/-! ## One token -/

lemma steady_of_fetch {c d : Cursor} (hc : c.Steady)
    (h : fetch { c with prevEnd := c.current.span.stop } = (.ok (), d)) :
    d.Steady ∧ d.prevEnd = c.current.span.stop := by
  obtain ⟨stop, hstart, hle, htiles⟩ := hc.tiles
  have hlast := hc.last
  cases hraw : c.raw with
  | nil =>
      simp only [fetch, hraw, Prod.mk.injEq, true_and] at h
      subst h
      -- At the end of the source the cursor stays, and the end is empty.
      have hempty : c.current.span.start = c.current.span.stop := by
        simpa [Cursor.tokens, hraw, folded] using hlast
      refine ⟨⟨⟨c.current.span.stop, ?_⟩, ?_⟩, rfl⟩
      · simp [Cursor.tokens, folded, Tiles, hempty]
      · simpa [Cursor.tokens, hraw, folded] using hempty
  | cons first raw =>
      simp only [fetch, hraw] at h
      split at h
      · next token rest hfold =>
          cases h
          rw [Cursor.tokens, hraw, folded_of_fold hfold, List.getLast?_cons_cons] at hlast
          rw [hraw, folded_of_fold hfold] at htiles
          exact ⟨⟨⟨stop, htiles⟩, hlast⟩, rfl⟩
      · cases h

lemma meets_bump {c : Cursor} (hc : c.Steady) :
    bump.Meets c (fun _ => True) fun t d =>
      t = c.current ∧ d.Steady ∧ d.prevEnd = c.current.span.stop := by
  have hfetch : fetch.Meets { c with prevEnd := c.current.span.stop } (fun _ => True) fun _ d =>
      d.Steady ∧ d.prevEnd = c.current.span.stop := by
    cases h : fetch { c with prevEnd := c.current.span.stop } with
    | mk outcome d =>
        cases outcome with
        | ok a => exact .of_eq_ok h (steady_of_fetch hc h)
        | error e => exact .of_eq_error h trivial
  exact hfetch.bind fun _ d hd => .pure ⟨rfl, hd⟩

namespace Lays

lemma bump {f : Token → Parse α} (h : ∀ t, Lays start before (f t) after) :
    Lays start before (Parse.bump >>= f) after := by
  intro c hc hbefore
  refine (meets_bump hc).bind fun t d hd => ?_
  obtain ⟨-, hd, hend⟩ := hd
  obtain ⟨hstart, hle⟩ := hc.current
  refine h t d hd ?_
  rw [hend]
  simpa using hbefore.append (.nil hle)

/-- A reader that takes a token may start a stretch of its own there, with a leaf for the token or
nothing on it. -/
lemma bumpStart {f : Token → Parse α}
    (h : ∀ t : Token, t.span.start ≤ t.span.stop → ∃ leaf, Laid t.span.start leaf t.span.stop ∧
      Lays t.span.start leaf (f t) after) :
    Lays start before (Parse.bump >>= f) fun a => before ++ after a := by
  intro c hc hbefore
  refine (meets_bump hc).bind fun t d hd => ?_
  obtain ⟨rfl, hd, hend⟩ := hd
  obtain ⟨hstart, hle⟩ := hc.current
  obtain ⟨leaf, hleaf, hf⟩ := h c.current (hstart ▸ hle)
  refine Attempt.Meets.imp (hf d hd (hend ▸ hleaf)) fun a e he => ⟨he.1, hbefore.append ?_⟩
  rw [← hstart]
  exact he.2

/-- A node with the span from `start` to the cursor, over trees of that stretch, is laid. -/
lemma spanFrom {f : Span → Node} {nodes : List Node} (hspan : ∀ span, (f span).span = span)
    (hchildren : ∀ span, (f span).children.Sublist nodes) :
    Lays start nodes (Parse.spanFrom start) fun span => [f span] :=
  fun _ hc hnodes => ⟨hc, hnodes.single (hspan _) (hchildren _)⟩

end Lays

/-! ## All readers -/

lemma lays_expect (kind : Kind) : Lays start before (expect kind) fun _ => before :=
  .peek fun _ => .ite (.bump fun _ => .pure rfl) .fail

lemma lays_expectGap : Lays start before expectGap fun _ => before :=
  .peek fun _ => .ite .fail (lays_expect .gap)

lemma lays_skipSeparator : Lays start before skipSeparator fun _ => before :=
  .peek fun _ => .ite (.bump fun _ => .pure rfl) (.pure rfl)

lemma lays_endOfInput : Lays start before endOfInput after :=
  .peek fun _ => .fail

lemma lays_applied (r : Rune) (args : List Node) :
    Lays start args (applied r args start) fun n => [n] :=
  (Lays.spanFrom (f := Node.rune r args) (fun _ => rfl) fun _ => .refl _).bind fun _ => .pure rfl

mutual

theorem lays_expr : ∀ budget : Nat, Adds (expr budget) fun n => [n]
  | 0 => by
      rw [expr]
      intro start before
      exact lays_endOfInput
  | budget + 1 => by
      rw [expr]
      intro start before
      refine .peekStart fun t => ?_
      exact (lays_operand budget).bind fun first => lays_chain budget _ first

theorem lays_chain : ∀ (budget start : Nat) (left : Node),
    Lays start [left] (chain budget start left) fun n => [n]
  | 0, _, _ => by
      rw [chain]
      exact lays_endOfInput
  | budget + 1, start, left => by
      rw [chain]
      refine .peek fun mark => ?_
      split
      · refine .bump fun _ => (lays_operand budget).bind fun right => ?_
        exact (lays_applied _ _).bind fun joined => lays_chain budget start joined
      · refine .bump fun _ => (lays_operand budget).bind fun right => ?_
        split
        · next name span =>
            refine (Lays.spanFrom (f := Node.faced name right) (fun _ => rfl) fun _ => ?_).bind
              fun span => lays_chain budget start _
            exact List.sublist_append_right _ _
        · exact .fail
      · exact .pure rfl

theorem lays_operand : ∀ budget : Nat, Adds (operand budget) fun n => [n]
  | 0 => by
      rw [operand]
      intro start before
      exact lays_endOfInput
  | budget + 1 => by
      rw [operand]
      intro start before
      refine .bumpStart fun token hle => ?_
      have hnothing : Laid token.span.start [] token.span.stop := .nil hle
      have hleaf : ∀ leaf : Node, leaf.span = token.span → leaf.children = [] →
          Laid token.span.start [leaf] token.span.stop :=
        fun leaf hspan hchildren => hnothing.single hspan (by simp [hchildren])
      dsimp only
      split
      · exact ⟨_, hleaf _ rfl rfl, lays_gateCall budget _ _⟩
      · exact ⟨_, hleaf _ rfl rfl, lays_gateCall budget _ _⟩
      · exact ⟨_, hleaf _ rfl rfl, .pure rfl⟩
      · exact ⟨_, hleaf _ rfl rfl, .pure rfl⟩
      · exact ⟨_, hleaf _ rfl rfl, .pure rfl⟩
      · exact ⟨_, hnothing, lays_application budget token⟩
      · refine ⟨_, hnothing, (lays_expect _).bind fun _ => (lays_expr budget).bind fun value => ?_⟩
        exact (lays_expect _).bind fun _ => lays_applied _ _
      · refine ⟨_, hnothing, (lays_expect _).bind fun _ => (lays_expr budget).bind fun left => ?_⟩
        refine (lays_expect _).bind fun _ => (lays_expr budget).bind fun right => ?_
        exact (lays_expect _).bind fun _ => lays_applied _ _
      · exact ⟨_, hnothing, (lays_wideList budget).bind fun args => lays_applied _ _⟩
      · refine ⟨_, hnothing, (lays_cons budget).bind fun node => ?_⟩
        exact (lays_expect _).bind fun _ => .pure rfl
      · exact ⟨_, hnothing, .fail⟩
      · exact ⟨_, hnothing, .fail⟩

theorem lays_gateCall : ∀ (budget start : Nat) (target : Node),
    Lays start [target] (gateCall budget start target) fun n => [n]
  | 0, _, _ => by
      rw [gateCall]
      exact lays_endOfInput
  | budget + 1, start, target => by
      rw [gateCall]
      refine .peek fun _ => .ite (.bump fun _ => .peek fun _ => ?_) (.pure rfl)
      have hcall : ∀ pairs,
          Lays start (target :: pairs) (applied .centis (target :: pairs) start) fun n => [n] :=
        fun pairs => lays_applied _ _
      exact .ite (.bump fun _ => hcall []) ((lays_callPairs budget).bind hcall)

theorem lays_callPairs : ∀ budget : Nat, Adds (callPairs budget) fun nodes => nodes
  | 0 => by
      rw [callPairs]
      intro start before
      exact lays_endOfInput
  | budget + 1 => by
      rw [callPairs]
      intro start before
      refine (lays_expr budget).bind fun name => (lays_expect _).bind fun _ => ?_
      refine (lays_expr budget).bind fun value => .peek fun _ => ?_
      refine .ite (.bump fun _ => .pure (by simp)) ?_
      refine (lays_expect _).bind fun _ => (lays_expect _).bind fun _ => ?_
      exact (lays_callPairs budget).bind fun pairs => .pure (by simp)

theorem lays_cons : ∀ budget : Nat, Adds (cons budget) fun n => [n]
  | 0 => by
      rw [cons]
      intro start before
      exact lays_endOfInput
  | budget + 1 => by
      rw [cons]
      intro start before
      refine .peekStart fun _ => (lays_expr budget).bind fun head => .peek fun _ => ?_
      refine .ite (.pure rfl) ((lays_expect _).bind fun _ => ?_)
      refine (lays_cons budget).bind fun tail => ?_
      refine (Lays.spanFrom (f := Node.cell head tail) (fun _ => rfl) fun _ => ?_).bind
        fun span => .pure rfl
      exact .refl _

theorem lays_wideList : ∀ budget : Nat, Adds (wideList budget) fun nodes => nodes
  | 0 => by
      rw [wideList]
      intro start before
      exact lays_endOfInput
  | budget + 1 => by
      rw [wideList]
      intro start before
      refine (lays_expr budget).bind fun node => .peek fun _ => ?_
      refine .ite (.bump fun _ => .pure rfl) ((lays_expect _).bind fun _ => ?_)
      exact (lays_wideList budget).bind fun nodes => .pure (by simp)

theorem lays_application : ∀ (budget : Nat) (token : Token),
    Lays token.span.start [] (application budget token) fun n => [n]
  | 0, _ => by
      rw [application]
      exact lays_endOfInput
  | budget + 1, token => by
      rw [application]
      dsimp only
      split
      · exact fun _ _ _ => .fail trivial
      · next signature _ =>
          have happlied : ∀ args, Lays token.span.start ([] ++ args)
              (applied (Rune.ofText token.text) args token.span.start) fun n => [n] :=
            fun args => lays_applied _ _
          refine .peek fun _ => .ite ?_ ?_
          · exact (lays_wide budget _ signature _).bind happlied
          · exact (lays_tall budget _ signature _).bind happlied

theorem lays_wide : ∀ (budget : Nat) (r : Rune) (s : Signature) (span : Span),
    Adds (wide budget r s span) fun nodes => nodes
  | 0, _, _, _ => by
      rw [wide]
      intro start before
      exact lays_endOfInput
  | budget + 1, r, s, span => by
      rw [wide]
      intro start before
      refine .ite .fail ((lays_expect _).bind fun _ => ?_)
      have hargs : ∀ args : List Node, Lays start (before ++ args)
          (if s.accepts args.length then pure args else fail span (.arity r s args.length))
          fun nodes => before ++ nodes :=
        fun args => .ite (.pure rfl) .fail
      refine .peek fun _ => .ite ((lays_wideJogging budget s).bind hargs) ?_
      refine .ite (.bump fun _ => ?_) ((lays_wideList budget).bind hargs)
      simpa using hargs []

theorem lays_wideFixed : ∀ budget count : Nat, Adds (wideFixed budget count) fun nodes => nodes
  | _, 0 => by
      rw [wideFixed]
      intro start before
      exact .pure (List.append_nil _)
  | 0, _ + 1 => by
      rw [wideFixed]
      intro start before
      exact lays_endOfInput
  | budget + 1, 1 => by
      rw [wideFixed]
      intro start before
      exact (lays_expr budget).bind fun node => .pure rfl
  | budget + 1, count + 2 => by
      rw [wideFixed]
      intro start before
      refine (lays_expr budget).bind fun node => (lays_expect _).bind fun _ => ?_
      exact (lays_wideFixed budget (count + 1)).bind fun nodes => .pure (by simp)

theorem lays_wideJogging : ∀ (budget : Nat) (s : Signature),
    Adds (wideJogging budget s) fun nodes => nodes
  | 0, _ => by
      rw [wideJogging]
      intro start before
      exact lays_endOfInput
  | budget + 1, s => by
      rw [wideJogging]
      intro start before
      refine (lays_wideFixed budget s.args).bind fun fixed => .peek fun _ => ?_
      have hpairs : Lays start (before ++ fixed)
          (do let pairs ← widePairs budget s; pure (fixed ++ pairs)) fun nodes => before ++ nodes :=
        (lays_widePairs budget s).bind fun pairs => .pure (by simp)
      exact .ite (.bump fun _ => .pure rfl) (.ite ((lays_expect _).bind fun _ => hpairs) hpairs)

theorem lays_widePairs : ∀ (budget : Nat) (s : Signature),
    Adds (widePairs budget s) fun nodes => nodes
  | 0, _ => by
      rw [widePairs]
      intro start before
      exact lays_endOfInput
  | budget + 1, s => by
      rw [widePairs]
      intro start before
      refine (lays_expr budget).bind fun name => (lays_expect _).bind fun _ => ?_
      refine (lays_expr budget).bind fun value => .peek fun token => ?_
      refine .ite (.bump fun _ => .pure (by simp)) (.ite (.bump fun _ => ?_) ?_)
      · refine (lays_expect _).bind fun _ => ?_
        exact (lays_widePairs budget s).bind fun rest => .pure (by simp)
      · refine .ite (.bump fun _ => ?_) .fail
        exact (lays_wideList budget).bind fun rest => .pure (by simp)

theorem lays_tall : ∀ (budget : Nat) (r : Rune) (s : Signature) (span : Span),
    Adds (tall budget r s span) fun nodes => nodes
  | 0, _, _, _ => by
      rw [tall]
      intro start before
      exact lays_endOfInput
  | budget + 1, r, s, span => by
      rw [tall]
      intro start before
      refine (lays_tallFixed budget s.args).bind fun fixed => ?_
      have hrest : ∀ items : List Node, Lays start (before ++ fixed ++ items)
          (if s.tail = .pairs ∧ items.length % 2 ≠ 0 then fail span (.oddPairs r)
          else do
            let post ← tallFixed budget s.post
            pure (fixed ++ items ++ post)) fun nodes => before ++ nodes :=
        fun items => .ite .fail ((lays_tallFixed budget s.post).bind fun post => .pure (by simp))
      dsimp only
      split
      · simpa using hrest []
      · exact (lays_tallUntil budget .tistis r span).bind hrest
      · exact (lays_tallUntil budget .tistis r span).bind hrest
      · exact (lays_tallUntil budget .hephep r span).bind hrest

theorem lays_tallFixed : ∀ budget count : Nat, Adds (tallFixed budget count) fun nodes => nodes
  | _, 0 => by
      rw [tallFixed]
      intro start before
      exact .pure (List.append_nil _)
  | 0, _ + 1 => by
      rw [tallFixed]
      intro start before
      exact lays_endOfInput
  | budget + 1, count + 1 => by
      rw [tallFixed]
      intro start before
      refine lays_expectGap.bind fun _ => (lays_expr budget).bind fun node => ?_
      exact (lays_tallFixed budget count).bind fun nodes => .pure (by simp)

theorem lays_tallUntil : ∀ (budget : Nat) (closer : Kind) (r : Rune) (span : Span),
    Adds (tallUntil budget closer r span) fun nodes => nodes
  | 0, _, _, _ => by
      rw [tallUntil]
      intro start before
      exact lays_endOfInput
  | budget + 1, closer, r, span => by
      rw [tallUntil]
      intro start before
      refine .peek fun _ => .ite .fail (lays_expectGap.bind fun _ => ?_)
      refine .peek fun _ => .ite (.bump fun _ => .pure (by simp)) (.ite .fail ?_)
      refine (lays_expr budget).bind fun node => ?_
      exact (lays_tallUntil budget closer r span).bind fun nodes => .pure (by simp)

end

lemma lays_whole : Adds whole fun n => [n] := by
  have hexpression : Adds expression fun n => [n] :=
    fun start before c => lays_expr c.budget start before c
  intro start before
  refine lays_skipSeparator.bind fun _ => hexpression.bind fun node => ?_
  exact lays_skipSeparator.bind fun _ => .peek fun _ => .ite (.pure rfl) .fail

end Parse

/-! ## Trees of a source -/

lemma steady_ofSource {source : String} {c : Cursor} (h : Cursor.ofSource source = .ok c) :
    c.Steady ∧ c.prevEnd = 0 := by
  have htokens := tokens_ofSource h
  have hprev : c.prevEnd = 0 := by
    obtain ⟨first, raw, -, hcursor⟩ := ofSource_eq source
    rw [h] at hcursor
    split at hcursor
    · cases hcursor
      rfl
    · cases hcursor
  obtain ⟨ts, hlex, -⟩ := lex_eq source
  refine ⟨⟨⟨0 + byteLength source.toList, ?_⟩, ?_⟩, hprev⟩
  · rw [htokens, hprev]
    exact (tiles_lexFrom 0 source.toList).folded
  · rw [htokens, hlex, folded_concat _ rfl, List.getLast?_concat]
    rintro _ ⟨⟩
    rfl

/-- **Every node of a tree that `parse` gives is nested**: its children stand inside of its span,
one behind the other. -/
lemma isNested_of_parse {source : String} {n : Node} (h : parse source = .ok n) :
    n.All Node.IsNested := by
  unfold parse at h
  split at h
  · next c hcursor =>
      obtain ⟨hc, hprev⟩ := steady_ofSource hcursor
      have hmeets := Parse.lays_whole 0 [] c hc (.nil (Nat.zero_le _))
      unfold Attempt.Meets at hmeets
      split at hmeets
      · next m d hrun =>
          rw [hrun] at h
          cases h
          exact hmeets.2.nested n (by simp)
      · next e d hrun =>
          rw [hrun] at h
          cases h
  · cases h

/-! ## What holds of every node -/

/-- What can be relied on at a node of a parsed tree. -/
structure Node.IsSound (m : Node) : Prop where
  /-- A rune takes as many arguments as there are.  Only `%-` may have any number of them, but not
  none, since `operand` does not count what stands between parentheses. -/
  arity : ∀ r args span, m = rune r args span → ∃ s, r.signature? = some s ∧
    (s.accepts args.length = true ∨ r = .cenhep ∧ args ≠ [])
  /-- A name is a word, and no slot. -/
  name : ∀ name span, m = face name span → isFaceText name = true ∧ isReserved name = false
  /-- So is a label. -/
  label : ∀ label value span, m = faced label value span →
    isFaceText label = true ∧ isReserved label = false
  numeral : ∀ digits span, m = num digits span → isNumText digits = true
  /-- What stands right under the node stands inside of it … -/
  within : ∀ k ∈ m.children,
    m.span.start ≤ k.span.start ∧ k.span.start ≤ k.span.stop ∧ k.span.stop ≤ m.span.stop
  /-- … one behind the other. -/
  apart : m.children.Pairwise fun j k => j.span.stop ≤ k.span.start

lemma Node.exists_entry {r : Rune} {args : List Node} {span : Span}
    (h : (rune r args span).isWellFormed = true) :
    ∃ s, r.signature? = some s ∧ (s.accepts args.length = true ∨ r = .cenhep ∧ args ≠ []) := by
  simp only [isWellFormed, Bool.or_eq_true, decide_eq_true_eq, Option.any_eq_true] at h
  rcases h with ⟨rfl, hargs⟩ | ⟨s, hs, haccepts⟩
  · exact ⟨_, rfl, .inr ⟨rfl, hargs⟩⟩
  · exact ⟨s, hs, .inl haccepts⟩

/-- **Every node of a tree that was read is sound.**  Only one of the readers counts arguments and
none of them looks at a text, but the cutter and the grammar see to both; and the readers move only
forward, so that the parts of a node stand inside of it in the order of the source. -/
theorem isSound_of_parse {source : String} {n : Node} (h : parse source = .ok n) :
    n.All Node.IsSound := by
  intro m hm
  have hform := isLegible_of_parse h m hm
  have hnested := isNested_of_parse h m hm
  refine ⟨?_, ?_, ?_, ?_, hnested.within, hnested.apart⟩
  · rintro r args span rfl
    exact Node.exists_entry hform
  · rintro name span rfl
    exact ⟨hform, isReserved_of_isFaceText hform⟩
  · rintro label value span rfl
    exact ⟨hform, isReserved_of_isFaceText hform⟩
  · rintro digits span rfl
    exact hform

/-- Pairs in tall form with an argument behind them, calls, brackets, a label and joined names. -/
theorem isSound_tall_pairs :
    ∃ n, parse ":: é\n=:  [a b]  $(b +(b))  c  d:.  ==\n (f x=1 .)" = .ok n ∧
      n.subtrees.length = 18 ∧ n.All Node.IsSound := by
  have hrun : (parse ":: é\n=:  [a b]  $(b +(b))  c  d:.  ==\n (f x=1 .)").toOption.any
      (fun n => n.subtrees.length = 18) = true := by
    decide +kernel
  obtain ⟨n, hparse, hlength⟩ := exists_of_any_toOption hrun
  exact ⟨n, hparse, of_decide_eq_true hlength, isSound_of_parse hparse⟩

end Runic
