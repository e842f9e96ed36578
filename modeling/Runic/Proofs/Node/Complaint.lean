import Mathlib.Tactic.Common
import Runic.Node.Parser
import Runic.Proofs.Attempt

/-!
# Where reading fails

A reader that fails complains about a token: about the one that it looks at, or about the rune whose
arguments it was reading.  So wherever the tokens of a source stand, there stand the complaints.

* `Error.At` — the error stands at one of certain places, if it stands anywhere.
* `Parse.Points` — a reader of tokens at certain region.Has complains at one of them.
* `Parse.points_expr` — **all readers do**, with one lemma for each, by recursion on the budget.
-/

namespace Runic

/-- The error has no span, or one at `places`. -/
def Error.At (places : Span → Prop) (e : Error) : Prop := ∀ span ∈ e.span?, places span

/-- A set of spans that is closed under `Span.merge`. -/
structure Region where
  Has : Span → Prop
  merge {a b : Span} : Has a → Has b → Has (a.merge b)

/-- The spans of all tokens that the cursor shows or will show are in the region. -/
structure Cursor.Within (region : Region) (c : Cursor) : Prop where
  current : region.Has c.current.span
  raw : ∀ t ∈ c.raw, region.Has t.span

namespace Parse

/-- From a cursor within the region, the reader leaves one within it, and its errors have spans in
it. -/
def Points {α : Type} (region : Region) (p : Parse α) : Prop :=
  ∀ c : Cursor, c.Within region → p.Meets c (Error.At region.Has) fun _ d => d.Within region

variable {α β : Type} {region : Region}

namespace Points

lemma pure {a : α} : Points region (Pure.pure a : Parse α) :=
  fun _ hc => .pure hc

lemma fail {span : Span} {fault : ParseFault} (h : region.Has span) :
    Points region (Parse.fail span fault : Parse α) := by
  refine fun c hc => .fail ?_
  rintro _ ⟨⟩
  exact h

lemma bind {p : Parse α} {f : α → Parse β} (hp : Points region p)
    (hf : ∀ a, Points region (f a)) : Points region (p >>= f) :=
  fun c hc => (hp c hc).bind fun a d hd => hf a d hd

lemma ite {condition : Prop} [Decidable condition] {p q : Parse α} (hp : Points region p)
    (hq : Points region q) : Points region (if condition then p else q) := by
  split
  · exact hp
  · exact hq

lemma peek {f : Token → Parse α} (h : ∀ t : Token, region.Has t.span → Points region (f t)) :
    Points region (Parse.peek >>= f) :=
  fun c hc => h c.current hc.current c hc

end Points

/-! ## One token -/

/-- A token that `fold` gives has a span in the region, and so has the error about a token that it
refuses. -/
lemma fold_at {first : Token} {raw rest : List Token} {result : Except Error Token}
    (hfirst : region.Has first.span) (hraw : ∀ t ∈ raw, region.Has t.span)
    (h : fold first raw = (result, rest)) : (∀ t ∈ rest, region.Has t.span) ∧
      (∀ token, result = .ok token → region.Has token.span) ∧
      ∀ e, result = .error e → e.At region.Has := by
  have hrun : region.Has ((raw.takeWhile (·.kind.isLayout)).foldl (fun span t => span.merge t.span)
      first.span) :=
    List.foldlRecOn _ _ hfirst fun span hspan t ht =>
      region.merge hspan (hraw t ((List.takeWhile_prefix _).mem ht))
  have hrest : ∀ t ∈ raw.dropWhile (·.kind.isLayout), region.Has t.span :=
    fun t ht => hraw t ((List.dropWhile_suffix _).mem ht)
  unfold fold at h
  split at h
  · cases h
    refine ⟨hraw, by simp, ?_⟩
    rintro _ ⟨⟩ _ ⟨⟩
    exact hfirst
  · cases h
    exact ⟨hrest, by rintro _ ⟨⟩; exact hrun, by simp⟩
  · cases h
    exact ⟨hrest, by rintro _ ⟨⟩; exact hrun, by simp⟩
  · cases h
    exact ⟨hrest, by rintro _ ⟨⟩; exact hrun, by simp⟩
  · cases h
    exact ⟨hraw, by rintro _ ⟨⟩; exact hfirst, by simp⟩

lemma points_fetch : Points region fetch := by
  intro c hc
  cases hraw : c.raw with
  | nil => exact .of_eq_ok (by rw [fetch, hraw]) hc
  | cons first raw =>
      have hc' := hc.raw
      rw [hraw, List.forall_mem_cons] at hc'
      cases hfold : fold first raw with
      | mk result rest =>
          obtain ⟨hrest, hok, herror⟩ := fold_at hc'.1 hc'.2 hfold
          cases result with
          | ok token =>
              have hfetch : fetch c = (.ok (), { c with current := token, raw := rest }) := by
                simp only [fetch, hraw, hfold]
              exact .of_eq_ok hfetch ⟨hok token rfl, hrest⟩
          | error e =>
              have hfetch : fetch c = (.error e, { c with raw := rest }) := by
                simp only [fetch, hraw, hfold]
              exact .of_eq_error hfetch (herror e rfl)

lemma Points.bump {f : Token → Parse α} (h : ∀ t : Token, region.Has t.span → Points region (f t)) :
    Points region (Parse.bump >>= f) := by
  intro c hc
  have hbump : Parse.bump.Meets c (Error.At region.Has) fun t d =>
      region.Has t.span ∧ d.Within region := by
    have hmoved : Cursor.Within region { c with prevEnd := c.current.span.stop } :=
      ⟨hc.current, hc.raw⟩
    exact (points_fetch _ hmoved).bind fun _ d hd => .pure ⟨hc.current, hd⟩
  exact hbump.bind fun t d hd => h t hd.1 d hd.2

/-! ## All readers -/

lemma points_expect (kind : Kind) : Points region (expect kind) :=
  .peek fun _ ht => .ite (.bump fun _ _ => .pure) (.fail ht)

lemma points_expectGap : Points region expectGap :=
  .peek fun _ ht => .ite (.fail ht) (points_expect .gap)

lemma points_skipSeparator : Points region skipSeparator :=
  .peek fun _ _ => .ite (.bump fun _ _ => .pure) .pure

lemma points_endOfInput : Points region (endOfInput : Parse α) :=
  .peek fun _ ht => .fail ht

lemma points_spanFrom (start : Nat) : Points region (spanFrom start) :=
  fun _ hc => hc

lemma points_applied (r : Rune) (args : List Node) (start : Nat) :
    Points region (applied r args start) :=
  (points_spanFrom start).bind fun _ => .pure

mutual

theorem points_expr : ∀ budget : Nat, Points region (expr budget)
  | 0 => by
      rw [expr]
      exact points_endOfInput
  | budget + 1 => by
      rw [expr]
      exact .peek fun _ _ => (points_operand budget).bind fun first => points_chain budget _ first

theorem points_chain : ∀ (budget start : Nat) (left : Node),
    Points region (chain budget start left)
  | 0, _, _ => by
      rw [chain]
      exact points_endOfInput
  | budget + 1, start, left => by
      rw [chain]
      refine .peek fun mark hmark => ?_
      split
      · refine .bump fun _ _ => (points_operand budget).bind fun right => ?_
        exact (points_applied _ _ _).bind fun joined => points_chain budget start joined
      · refine .bump fun _ _ => (points_operand budget).bind fun right => ?_
        split
        · exact (points_spanFrom start).bind fun span => points_chain budget start _
        · exact .fail hmark
      · exact .pure

theorem points_operand : ∀ budget : Nat, Points region (operand budget)
  | 0 => by
      rw [operand]
      exact points_endOfInput
  | budget + 1 => by
      rw [operand]
      refine .bump fun token htoken => ?_
      dsimp only
      split
      · exact points_gateCall budget _ _
      · exact points_gateCall budget _ _
      · exact .pure
      · exact .pure
      · exact .pure
      · exact points_application budget token htoken
      · refine (points_expect _).bind fun _ => (points_expr budget).bind fun value => ?_
        exact (points_expect _).bind fun _ => points_applied _ _ _
      · refine (points_expect _).bind fun _ => (points_expr budget).bind fun left => ?_
        refine (points_expect _).bind fun _ => (points_expr budget).bind fun right => ?_
        exact (points_expect _).bind fun _ => points_applied _ _ _
      · exact (points_wideList budget).bind fun args => points_applied _ _ _
      · refine (points_cons budget).bind fun node => ?_
        exact (points_expect _).bind fun _ => .pure
      · exact .fail htoken
      · exact .fail htoken

theorem points_gateCall : ∀ (budget start : Nat) (target : Node),
    Points region (gateCall budget start target)
  | 0, _, _ => by
      rw [gateCall]
      exact points_endOfInput
  | budget + 1, start, target => by
      rw [gateCall]
      refine .peek fun _ _ => .ite (.bump fun _ _ => .peek fun _ _ => ?_) .pure
      have hcall : ∀ pairs, Points region (applied .centis (target :: pairs) start) :=
        fun pairs => points_applied _ _ _
      exact .ite (.bump fun _ _ => hcall []) ((points_callPairs budget).bind hcall)

theorem points_callPairs : ∀ budget : Nat, Points region (callPairs budget)
  | 0 => by
      rw [callPairs]
      exact points_endOfInput
  | budget + 1 => by
      rw [callPairs]
      refine (points_expr budget).bind fun name => (points_expect _).bind fun _ => ?_
      refine (points_expr budget).bind fun value => .peek fun _ _ => ?_
      refine .ite (.bump fun _ _ => .pure) ?_
      refine (points_expect _).bind fun _ => (points_expect _).bind fun _ => ?_
      exact (points_callPairs budget).bind fun pairs => .pure

theorem points_cons : ∀ budget : Nat, Points region (cons budget)
  | 0 => by
      rw [cons]
      exact points_endOfInput
  | budget + 1 => by
      rw [cons]
      refine .peek fun _ _ => (points_expr budget).bind fun head => .peek fun _ _ => ?_
      refine .ite .pure ((points_expect _).bind fun _ => ?_)
      exact (points_cons budget).bind fun tail => (points_spanFrom _).bind fun span => .pure

theorem points_wideList : ∀ budget : Nat, Points region (wideList budget)
  | 0 => by
      rw [wideList]
      exact points_endOfInput
  | budget + 1 => by
      rw [wideList]
      refine (points_expr budget).bind fun node => .peek fun _ _ => ?_
      refine .ite (.bump fun _ _ => .pure) ((points_expect _).bind fun _ => ?_)
      exact (points_wideList budget).bind fun nodes => .pure

theorem points_application : ∀ (budget : Nat) (token : Token), region.Has token.span →
    Points region (application budget token)
  | 0, _, _ => by
      rw [application]
      exact points_endOfInput
  | budget + 1, token, htoken => by
      rw [application]
      dsimp only
      split
      · refine fun c hc => .fail ?_
        rintro _ ⟨⟩
        exact htoken
      · next signature _ =>
          have happlied : ∀ args, Points region
              (applied (Rune.ofText token.text) args token.span.start) :=
            fun args => points_applied _ _ _
          refine .peek fun _ _ => .ite ?_ ?_
          · exact (points_wide budget _ signature _ htoken).bind happlied
          · exact (points_tall budget _ signature _ htoken).bind happlied

theorem points_wide : ∀ (budget : Nat) (r : Rune) (s : Signature) (span : Span),
    region.Has span → Points region (wide budget r s span)
  | 0, _, _, _, _ => by
      rw [wide]
      exact points_endOfInput
  | budget + 1, r, s, span, hspan => by
      rw [wide]
      refine .ite (.fail hspan) ((points_expect _).bind fun _ => ?_)
      have hargs : ∀ args : List Node, Points region
          (if s.accepts args.length then pure args else fail span (.arity r s args.length)) :=
        fun args => .ite .pure (.fail hspan)
      refine .peek fun _ _ => .ite ((points_wideJogging budget s).bind hargs) ?_
      exact .ite (.bump fun _ _ => hargs []) ((points_wideList budget).bind hargs)

theorem points_wideFixed : ∀ budget count : Nat, Points region (wideFixed budget count)
  | _, 0 => by
      rw [wideFixed]
      exact .pure
  | 0, _ + 1 => by
      rw [wideFixed]
      exact points_endOfInput
  | budget + 1, 1 => by
      rw [wideFixed]
      exact (points_expr budget).bind fun node => .pure
  | budget + 1, count + 2 => by
      rw [wideFixed]
      refine (points_expr budget).bind fun node => (points_expect _).bind fun _ => ?_
      exact (points_wideFixed budget (count + 1)).bind fun nodes => .pure

theorem points_wideJogging : ∀ (budget : Nat) (s : Signature),
    Points region (wideJogging budget s)
  | 0, _ => by
      rw [wideJogging]
      exact points_endOfInput
  | budget + 1, s => by
      rw [wideJogging]
      refine (points_wideFixed budget s.args).bind fun fixed => .peek fun _ _ => ?_
      have hpairs : Points region (do let pairs ← widePairs budget s; pure (fixed ++ pairs)) :=
        (points_widePairs budget s).bind fun pairs => .pure
      exact .ite (.bump fun _ _ => .pure) (.ite ((points_expect _).bind fun _ => hpairs) hpairs)

theorem points_widePairs : ∀ (budget : Nat) (s : Signature), Points region (widePairs budget s)
  | 0, _ => by
      rw [widePairs]
      exact points_endOfInput
  | budget + 1, s => by
      rw [widePairs]
      refine (points_expr budget).bind fun name => (points_expect _).bind fun _ => ?_
      refine (points_expr budget).bind fun value => .peek fun token htoken => ?_
      refine .ite (.bump fun _ _ => .pure) (.ite (.bump fun _ _ => ?_) ?_)
      · refine (points_expect _).bind fun _ => ?_
        exact (points_widePairs budget s).bind fun rest => .pure
      · refine .ite (.bump fun _ _ => ?_) (.fail htoken)
        exact (points_wideList budget).bind fun rest => .pure

theorem points_tall : ∀ (budget : Nat) (r : Rune) (s : Signature) (span : Span),
    region.Has span → Points region (tall budget r s span)
  | 0, _, _, _, _ => by
      rw [tall]
      exact points_endOfInput
  | budget + 1, r, s, span, hspan => by
      rw [tall]
      refine (points_tallFixed budget s.args).bind fun fixed => ?_
      have hrest : ∀ items : List Node, Points region
          (if s.tail = .pairs ∧ items.length % 2 ≠ 0 then fail span (.oddPairs r)
          else do
            let post ← tallFixed budget s.post
            pure (fixed ++ items ++ post)) :=
        fun items => .ite (.fail hspan) ((points_tallFixed budget s.post).bind fun post => .pure)
      have hitems : ∀ closer, Points region (tallUntil budget closer r span) :=
        fun closer => points_tallUntil budget closer r span hspan
      dsimp only
      split
      · exact hrest []
      · exact (hitems .tistis).bind hrest
      · exact (hitems .tistis).bind hrest
      · exact (hitems .hephep).bind hrest

theorem points_tallFixed : ∀ budget count : Nat, Points region (tallFixed budget count)
  | _, 0 => by
      rw [tallFixed]
      exact .pure
  | 0, _ + 1 => by
      rw [tallFixed]
      exact points_endOfInput
  | budget + 1, count + 1 => by
      rw [tallFixed]
      refine points_expectGap.bind fun _ => (points_expr budget).bind fun node => ?_
      exact (points_tallFixed budget count).bind fun nodes => .pure

theorem points_tallUntil : ∀ (budget : Nat) (closer : Kind) (r : Rune) (span : Span),
    region.Has span → Points region (tallUntil budget closer r span)
  | 0, _, _, _, _ => by
      rw [tallUntil]
      exact points_endOfInput
  | budget + 1, closer, r, span, hspan => by
      rw [tallUntil]
      refine .peek fun _ _ => .ite (.fail hspan) (points_expectGap.bind fun _ => ?_)
      refine .peek fun _ _ => .ite (.bump fun _ _ => .pure) (.ite (.fail hspan) ?_)
      refine (points_expr budget).bind fun node => ?_
      exact (points_tallUntil budget closer r span hspan).bind fun nodes => .pure

end

lemma points_whole : Points region whole := by
  have hexpression : Points region expression := fun c hc => points_expr c.budget c hc
  refine points_skipSeparator.bind fun _ => hexpression.bind fun node => ?_
  exact points_skipSeparator.bind fun _ => .peek fun _ ht => .ite .pure (.fail ht)

end Parse

/-- **If `parse` fails, the span of the error is in every region that has the start of the source
and the spans of its tokens.** -/
theorem at_of_parse_eq_error {source : String} {region : Region} {e : Error}
    (hstart : region.Has ⟨0, 0⟩) (hlex : ∀ t ∈ lex source, region.Has t.span)
    (h : parse source = .error e) : e.At region.Has := by
  have hfirst : Cursor.Within region ⟨.eof 0, lex source, 0⟩ := ⟨hstart, hlex⟩
  have hfetch := Parse.points_fetch _ hfirst
  unfold parse at h
  cases hrun : Parse.fetch ⟨.eof 0, lex source, 0⟩ with
  | mk result c =>
      unfold Attempt.Meets at hfetch
      rw [hrun] at hfetch
      cases result with
      | ok _ =>
          have hcursor : Cursor.ofSource source = .ok c := by
            simp only [Cursor.ofSource, hrun]
          rw [hcursor] at h
          exact (Parse.points_whole c hfetch).error (Prod.ext h rfl)
      | error e' =>
          have hcursor : Cursor.ofSource source = .error e' := by
            simp only [Cursor.ofSource, hrun]
          rw [hcursor] at h
          cases h
          exact hfetch

end Runic
