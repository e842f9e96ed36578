import Runic.Proofs.Node.Soundness
import Runic.Proofs.Token.Cutting

/-!
# Reading the same again

A reader looks at nothing but the tokens it takes and the kind of the one behind them.  So what it
read once it reads again wherever the same tokens stand: further on in the source, with something
else behind them, and with a larger budget.

* `Cursor.tokens` — what a cursor shows and will show, places included.
* `Parse.Replays` — **what one reader took, another reads again from the same tokens, so many bytes
  further on**.  There is one rule for each way in which readers are put together.
-/

namespace Runic

/-! ## Trees and cursors elsewhere -/

namespace Node

mutual

/-- A tree with all its spans moved by `offset` bytes to the right. -/
@[simp] def moved (offset : Nat) : Node → Node
  | buc span => buc (span.moved offset)
  | pat span => pat (span.moved offset)
  | dot span => dot (span.moved offset)
  | face name span => face name (span.moved offset)
  | faced label value span => faced label (moved offset value) (span.moved offset)
  | num digits span => num digits (span.moved offset)
  | rune r args span => rune r (movedAll offset args) (span.moved offset)
  | cell head tail span => cell (moved offset head) (moved offset tail) (span.moved offset)

/-- Trees with all their spans moved by `offset` bytes to the right. -/
@[simp] def movedAll (offset : Nat) : List Node → List Node
  | [] => []
  | node :: nodes => moved offset node :: movedAll offset nodes

end

lemma movedAll_eq_map (offset : Nat) (nodes : List Node) :
    movedAll offset nodes = nodes.map (moved offset) := by
  induction nodes with
  | nil => rfl
  | cons node nodes ih => rw [movedAll, ih, List.map_cons]

@[simp] lemma movedAll_append (offset : Nat) (as bs : List Node) :
    movedAll offset (as ++ bs) = movedAll offset as ++ movedAll offset bs := by
  simp [movedAll_eq_map]

@[simp] lemma length_movedAll (offset : Nat) (nodes : List Node) :
    (movedAll offset nodes).length = nodes.length := by
  simp [movedAll_eq_map]

@[simp] lemma moved_zero (n : Node) : n.moved 0 = n := by
  induction n using Node.induction with
  | buc | pat | dot | face | num => simp [Span.moved]
  | faced label value span ih => simp [Span.moved, ih]
  | cell head tail span ihHead ihTail => simp [Span.moved, ihHead, ihTail]
  | rune r args span ih =>
      have hargs : args.map (moved 0) = args := by
        simpa using List.map_congr_left ih
      simp [Span.moved, movedAll_eq_map, hargs]

end Node

namespace Token

@[simp] lemma kind_moved (offset : Nat) (t : Token) : (t.moved offset).kind = t.kind := rfl

@[simp] lemma text_moved (offset : Nat) (t : Token) : (t.moved offset).text = t.text := rfl

@[simp] lemma span_moved (offset : Nat) (t : Token) :
    (t.moved offset).span = t.span.moved offset := rfl

@[simp] lemma symbol_moved (offset : Nat) (t : Token) : (t.moved offset).symbol = t.symbol := rfl

@[simp] lemma moved_zero (t : Token) : t.moved 0 = t := rfl

@[simp] lemma map_moved_zero (ts : List Token) : ts.map (moved 0) = ts :=
  List.map_id ts

end Token

namespace Cursor

/-- The folded tokens that a cursor shows and will show. -/
def tokens (c : Cursor) : List Token := c.current :: folded c.raw

lemma view_eq_map (c : Cursor) : c.view = c.tokens.map Token.symbol := rfl

lemma current_eq {c d : Cursor} (h : c.tokens = d.tokens) : c.current = d.current :=
  (List.cons.inj h).1

lemma current_of_tokens {c : Cursor} {t : Token} {ts : List Token} (h : c.tokens = t :: ts) :
    c.current = t :=
  (List.cons.inj h).1

lemma Ended.of_tokens {c d : Cursor} {us : List Token} (hc : c.Ended)
    (h : c.tokens = us ++ d.tokens) : d.Ended := by
  refine hc.rest (?_ : c.view = us.map Token.symbol ++ d.view)
  rw [view_eq_map, h, List.map_append, ← view_eq_map]

/-- A cursor with all its tokens moved by `offset` bytes to the right. -/
def moved (offset : Nat) (c : Cursor) : Cursor :=
  ⟨c.current.moved offset, c.raw.map (Token.moved offset), c.prevEnd + offset⟩

lemma tokens_moved (offset : Nat) (c : Cursor) :
    (c.moved offset).tokens = c.tokens.map (Token.moved offset) := by
  simp [tokens, moved, folded_moved]

lemma view_moved (offset : Nat) (c : Cursor) : (c.moved offset).view = c.view := by
  rw [view_eq_map, tokens_moved, view_eq_map, List.map_map]
  rfl

@[simp] lemma moved_zero (c : Cursor) : c.moved 0 = c := by
  simp [moved]

lemma Clean.moved {c : Cursor} (h : c.Clean) (offset : Nat) : (c.moved offset).Clean where
  ended := by
    rw [Ended, view_moved]
    exact h.ended
  legal := by
    intro t ht
    obtain ⟨u, hu, rfl⟩ := List.mem_map.1 ht
    exact h.legal u hu

end Cursor

/-- The stop of the last of the tokens, or `start` if there are none. -/
def lastStop (start : Nat) (ts : List Token) : Nat := ts.foldl (fun _ t => t.span.stop) start

lemma lastStop_append (start : Nat) (ts us : List Token) :
    lastStop start (ts ++ us) = lastStop (lastStop start ts) us :=
  List.foldl_append

/-! ## One token -/

namespace Parse

lemma bump_eq_ok {c d : Cursor} {t : Token} (hc : c.Ended) (hkind : c.current.kind ≠ .eof)
    (h : bump c = (.ok t, d)) :
    t = c.current ∧ c.tokens = c.current :: d.tokens ∧ d.prevEnd = c.current.span.stop := by
  simp only [bump, Attempt.bind_eq_ok, peek, Attempt.modify_apply, Attempt.pure_apply,
    Prod.mk.injEq, Except.ok.injEq] at h
  obtain ⟨_, _, ⟨rfl, rfl⟩, _, _, ⟨_, rfl⟩, _, e, hfetch, rfl, rfl⟩ := h
  cases hraw : c.raw with
  | nil =>
      simp only [Cursor.Ended, Cursor.view, hraw, folded, List.map_cons, List.map_nil,
        List.getLast?_singleton, Option.some.injEq] at hc
      exact absurd (Token.symbol_eq_plain hc) hkind
  | cons first raw =>
      simp only [fetch, hraw] at hfetch
      split at hfetch
      · next token rest hfold =>
          cases hfetch
          exact ⟨rfl, by simp [Cursor.tokens, hraw, folded_of_fold hfold], rfl⟩
      · cases hfetch

lemma exists_bump {c : Cursor} {t : Token} {ts : List Token} (hc : c.Clean)
    (htokens : c.tokens = t :: ts) (hkind : t.kind ≠ .eof) :
    ∃ d, bump c = (.ok t, d) ∧ d.Clean ∧ d.tokens = ts ∧ d.prevEnd = t.span.stop := by
  obtain rfl := Cursor.current_of_tokens htokens
  have hview : c.view = c.current.symbol :: ts.map Token.symbol := by
    rw [Cursor.view_eq_map, htokens, List.map_cons]
  obtain ⟨_, d, hbump, hd, -, rfl⟩ := reaches_bump hc hview (by simpa using hkind)
  obtain ⟨-, htokens', hend⟩ := bump_eq_ok hc.ended hkind hbump
  rw [htokens', List.cons.injEq] at htokens
  exact ⟨d, hbump, hd, htokens.2, hend⟩

/-! ## Replaying -/

variable {α β : Type}

/-- From the tokens `us`, moved by `offset`, the reader `q` gives the result moved.  Behind them may
stand what stood behind them before, or a token of an `allowed` kind. -/
def Again (offset : Nat) (move : α → α) (allowed : Kind → Prop) (q : Parse α) (c : Cursor)
    (us : List Token) (a : α) (e : Cursor) : Prop :=
  ∀ (d : Cursor) (rest : List Token), d.Clean → d.tokens = us.map (Token.moved offset) ++ rest →
    d.prevEnd = c.prevEnd + offset →
    (∀ t ∈ rest.head?, t.kind = e.current.kind ∨ allowed t.kind) →
    ∃ d', q d = (.ok (move a), d') ∧ d'.Clean ∧ d'.tokens = rest ∧ d'.prevEnd = e.prevEnd + offset

/-- The tokens `us` were taken between the cursors `c` and `e` with the result `a`, and `q` takes
them again. -/
structure Taken (offset : Nat) (move : α → α) (allowed : Kind → Prop) (q : Parse α) (c : Cursor)
    (us : List Token) (a : α) (e : Cursor) : Prop where
  tokens : c.tokens = us ++ e.tokens
  prevEnd : e.prevEnd = lastStop c.prevEnd us
  again : Again offset move allowed q c us a e

/-- **If `p` succeeds from `c`, it has taken some tokens, and `q` takes them again, moved by
`offset`.** -/
def Replays (offset : Nat) (move : α → α) (allowed : Kind → Prop) (p q : Parse α) (c : Cursor)
    (post : List Token → α → Cursor → Prop) : Prop :=
  c.Ended → ∀ a e, p c = (.ok a, e) → ∃ us, Taken offset move allowed q c us a e ∧ post us a e

namespace Replays

variable {offset : Nat} {move : α → α} {move' : β → β} {allowed allowed' : Kind → Prop}
  {p q : Parse α} {f g : α → Parse β} {c : Cursor} {P P' : List Token → α → Cursor → Prop}
  {Q : List Token → β → Cursor → Prop}

lemma imp (h : Replays offset move allowed p q c P)
    (himp : ∀ us a e, Taken offset move allowed q c us a e → P us a e → P' us a e) :
    Replays offset move allowed p q c P' := by
  intro hc a e hp
  obtain ⟨us, htaken, hP⟩ := h hc a e hp
  exact ⟨us, htaken, himp us a e htaken hP⟩

/-- A reader replays for fewer kinds that are allowed behind it. -/
lemma mono (h : Replays offset move allowed p q c P) (hle : ∀ kind, allowed' kind → allowed kind) :
    Replays offset move allowed' p q c P := by
  intro hc a e hp
  obtain ⟨us, htaken, hP⟩ := h hc a e hp
  refine ⟨us, ⟨htaken.tokens, htaken.prevEnd, fun d rest hd htokens hprev hrest => ?_⟩, hP⟩
  exact htaken.again d rest hd htokens hprev fun t ht => (hrest t ht).imp_right (hle t.kind)

/-- A sequence replays if its two parts do.  What is allowed behind the first part matters only if
the second takes nothing. -/
lemma seq (hp : Replays offset move allowed' p q c P)
    (hf : ∀ a e us, Taken offset move allowed' q c us a e → P us a e →
      Replays offset move' allowed (f a) (g (move a)) e fun vs b e' =>
        (vs ≠ [] ∨ ∀ kind, allowed kind → allowed' kind) ∧ Q (us ++ vs) b e') :
    Replays offset move' allowed (p >>= f) (q >>= g) c Q := by
  intro hc b e' h
  obtain ⟨a, e, hrun, hrun'⟩ := Attempt.bind_eq_ok.1 h
  obtain ⟨us, htaken, hP⟩ := hp hc a e hrun
  have he : e.Ended := hc.of_tokens htaken.tokens
  obtain ⟨vs, htaken', hallowed, hQ⟩ := hf a e us htaken hP he b e' hrun'
  refine ⟨us ++ vs, ⟨?_, ?_, ?_⟩, hQ⟩
  · rw [htaken.tokens, htaken'.tokens, List.append_assoc]
  · rw [htaken'.prevEnd, htaken.prevEnd, lastStop_append]
  · intro d rest hd htokens hprev hrest
    rw [List.map_append, List.append_assoc] at htokens
    have hvs := htaken'.tokens
    have hnext : ∀ t ∈ (vs.map (Token.moved offset) ++ rest).head?,
        t.kind = e.current.kind ∨ allowed' t.kind := by
      cases vs with
      | nil =>
          rw [Cursor.current_eq hvs]
          exact fun t ht => (hrest t ht).imp_right (hallowed.resolve_left (by simp) t.kind)
      | cons v vs =>
          rintro _ ⟨⟩
          rw [Cursor.current_of_tokens hvs]
          exact .inl rfl
    obtain ⟨d₁, hq, hd₁, htokens₁, hprev₁⟩ := htaken.again d _ hd htokens hprev hnext
    obtain ⟨d₂, hg, hd₂⟩ := htaken'.again d₁ rest hd₁ htokens₁ hprev₁ hrest
    exact ⟨d₂, Attempt.bind_eq_ok.2 ⟨_, _, hq, hg⟩, hd₂⟩

lemma bind (hp : Replays offset move allowed p q c P)
    (hf : ∀ a e us, Taken offset move allowed q c us a e → P us a e →
      Replays offset move' allowed (f a) (g (move a)) e fun vs b e' => Q (us ++ vs) b e') :
    Replays offset move' allowed (p >>= f) (q >>= g) c Q :=
  hp.seq fun a e us htaken hP =>
    (hf a e us htaken hP).imp fun _ _ _ _ hQ => ⟨.inr fun _ h => h, hQ⟩

lemma pure {a : α} (h : P [] a c) :
    Replays offset move allowed (Pure.pure a) (Pure.pure (move a)) c P := by
  intro _ b e hp
  cases hp
  refine ⟨[], ⟨rfl, rfl, fun d rest hd htokens hprev _ => ?_⟩, h⟩
  exact ⟨d, rfl, hd, htokens, hprev⟩

lemma fail {e : Error} : Replays offset move allowed (Attempt.fail e) q c P := by
  intro _ a d h
  cases h

/-- A reader that looks at a token and then takes it replays if what follows does. -/
lemma peek {f g : Token → Parse α}
    (h : Replays offset move allowed (f c.current) (g (c.current.moved offset)) c fun us a e =>
      us ≠ [] ∧ P us a e) :
    Replays offset move allowed (Parse.peek >>= f) (Parse.peek >>= g) c P := by
  intro hc a e hp
  obtain ⟨us, htaken, hne, hP⟩ := h hc a e hp
  refine ⟨us, ⟨htaken.tokens, htaken.prevEnd, fun d rest hd htokens hprev hrest => ?_⟩, hP⟩
  obtain ⟨t, us, rfl⟩ := List.exists_cons_of_ne_nil hne
  have hcurrent : d.current = c.current.moved offset := by
    rw [Cursor.current_of_tokens htaken.tokens, Cursor.current_of_tokens htokens]
  obtain ⟨d', hq, hd'⟩ := htaken.again d rest hd htokens hprev hrest
  exact ⟨d', by rw [← hq, ← hcurrent]; rfl, hd'⟩

/-- A reader that looks at a token replays if it goes the same way for every token that may stand in
its place. -/
lemma peek_kind {f g : Token → Parse α} (q : Parse α)
    (h : Replays offset move allowed (f c.current) q c P)
    (hg : ∀ t : Token, t.kind = c.current.kind ∨ allowed t.kind → g t = q) :
    Replays offset move allowed (Parse.peek >>= f) (Parse.peek >>= g) c P := by
  intro hc a e hp
  obtain ⟨us, htaken, hP⟩ := h hc a e hp
  refine ⟨us, ⟨htaken.tokens, htaken.prevEnd, fun d rest hd htokens hprev hrest => ?_⟩, hP⟩
  have hkind : d.current.kind = c.current.kind ∨ allowed d.current.kind := by
    have hus := htaken.tokens
    cases us with
    | nil =>
        rw [Cursor.current_eq hus]
        exact hrest d.current (by rw [← List.nil_append rest, ← List.map_nil, ← htokens]; rfl)
    | cons t us =>
        rw [Cursor.current_of_tokens hus, Cursor.current_of_tokens htokens]
        exact .inl rfl
  obtain ⟨d', hq, hd'⟩ := htaken.again d rest hd htokens hprev hrest
  exact ⟨d', by rw [← hq, ← hg d.current hkind]; rfl, hd'⟩

end Replays

section

variable {offset : Nat} {allowed : Kind → Prop}

lemma replays_bump {c : Cursor} (h : c.current.kind ≠ .eof) :
    Replays offset (Token.moved offset) allowed bump bump c fun us t e =>
      us = [c.current] ∧ t = c.current ∧ e.prevEnd = c.current.span.stop := by
  intro hc t e hrun
  obtain ⟨rfl, htokens, hend⟩ := bump_eq_ok hc h hrun
  refine ⟨[c.current], ⟨htokens, hend, fun d rest hd hrest _ _ => ?_⟩, rfl, rfl, hend⟩
  obtain ⟨d', hbump, hd', hrest', hend'⟩ := exists_bump hd hrest h
  exact ⟨d', hbump, hd', hrest', by rw [hend', hend]; rfl⟩

lemma replays_expect {kind : Kind} (h : kind ≠ .eof) (c : Cursor) :
    Replays offset id allowed (expect kind) (expect kind) c fun us _ _ =>
      us = [c.current] ∧ c.current.kind = kind := by
  refine .peek ?_
  by_cases hk : c.current.kind = kind
  · rw [if_pos hk, Token.kind_moved, if_pos hk]
    refine (replays_bump (by rwa [hk])).bind ?_
    rintro _ e _ - ⟨rfl, -⟩
    exact .pure ⟨by simp, by simp, hk⟩
  · rw [if_neg hk]
    exact .fail

lemma replays_expectGap (c : Cursor) :
    Replays offset id allowed expectGap expectGap c fun us _ _ => us = [c.current] := by
  refine .peek ?_
  by_cases hk : c.current.kind = .ace
  · rw [if_pos hk]
    exact .fail
  · rw [if_neg hk, Token.kind_moved, if_neg hk]
    refine (replays_expect (by simp) c).imp ?_
    rintro us _ _ - ⟨rfl, -⟩
    exact ⟨by simp, rfl⟩

lemma replays_spanFrom {start : Nat} {c : Cursor} :
    Replays offset (Span.moved offset) allowed (spanFrom start) (spanFrom (start + offset)) c
      fun us span e => us = [] ∧ span = ⟨start, c.prevEnd⟩ ∧ e = c := by
  intro _ a e hrun
  cases hrun
  refine ⟨[], ⟨rfl, rfl, fun d rest hd htokens hprev _ => ?_⟩, rfl, rfl, rfl⟩
  exact ⟨d, by rw [spanFrom, hprev]; rfl, hd, htokens, hprev⟩

lemma replays_applied {r : Rune} {args : List Node} {start : Nat} {c : Cursor} :
    Replays offset (Node.moved offset) allowed (applied r args start)
      (applied r (Node.movedAll offset args) (start + offset)) c fun us n e =>
        us = [] ∧ n = .rune r args ⟨start, c.prevEnd⟩ ∧ e = c := by
  refine replays_spanFrom.bind ?_
  rintro _ _ _ - ⟨rfl, rfl, rfl⟩
  exact .pure ⟨rfl, rfl, rfl⟩

lemma replays_endOfInput {α : Type} {move : α → α} {q : Parse α} {c : Cursor}
    {P : List Token → α → Cursor → Prop} : Replays offset move allowed endOfInput q c P := by
  intro _ a e hrun
  cases hrun

end

end Parse

end Runic
