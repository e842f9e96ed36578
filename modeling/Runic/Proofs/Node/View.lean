import Runic.Node.Parser
import Runic.Proofs.Node.Grammar

/-!
# What a reader sees and what it does

A cursor is seen as the symbols that it shows and will show (`Cursor.view`).  Readers are described
by what they do to that view, in two ways.

* `Parse.Takes` — *if* the reader succeeds, it took a certain front of the view.
* `Parse.Reaches` — the reader *does* succeed, and leaves a certain rest of the view.

Both have a rule for sequences, and one for each of the readers of a single token.
-/

namespace Runic

/-! ## Symbols of tokens -/

@[simp] lemma Token.kind_symbol (t : Token) : t.symbol.kind = t.kind := by
  unfold Token.symbol
  split <;> simp_all

/-- A token with the symbol `.plain kind` has this kind. -/
lemma Token.symbol_eq_plain {t : Token} {kind : Kind} (h : t.symbol = .plain kind) :
    t.kind = kind := by
  simpa using congrArg Symbol.kind h

/-- A token of the kind is read by its kind alone. -/
def Kind.isPlain : Kind → Bool
  | face | num | rune | eof => false
  | _ => true

lemma Token.symbol_of_isPlain {t : Token} {kind : Kind} (h : t.kind = kind)
    (hplain : kind.isPlain = true) : t.symbol = .plain kind := by
  subst h
  unfold Token.symbol
  split <;> simp_all [Kind.isPlain]

lemma Token.symbol_of_face {t : Token} (h : t.kind = .face) : t.symbol = .face t.text := by
  simp [Token.symbol, h]

lemma Token.symbol_of_num {t : Token} (h : t.kind = .num) : t.symbol = .num t.text := by
  simp [Token.symbol, h]

lemma Token.symbol_of_rune {t : Token} (h : t.kind = .rune) :
    t.symbol = .rune (Rune.ofText t.text) := by
  simp [Token.symbol, h]

lemma Token.symbol_of_eof {t : Token} (h : t.kind = .eof) : t.symbol = .eof := by
  simp [Token.symbol, h]

lemma Token.symbol_of_mark {t : Token} {glyph : Glyph} (h : t.kind = .mark glyph) :
    t.symbol = .mark glyph :=
  Token.symbol_of_isPlain h rfl

/-! ## The view of a cursor -/

namespace Cursor

/-- The symbols that a cursor shows and will show, their layout folded. -/
def view (c : Cursor) : List Symbol := (c.current :: folded c.raw).map Token.symbol

lemma view_eq (c : Cursor) : c.view = c.current.symbol :: (folded c.raw).map Token.symbol := rfl

lemma view_ne_nil (c : Cursor) : c.view ≠ [] := by
  simp [view]

/-- The last symbol of the view is the end of the source. -/
def Ended (c : Cursor) : Prop := c.view.getLast? = some .eof

/-- No illegal token is behind the one that is shown. -/
def Legal (c : Cursor) : Prop := ∀ t ∈ c.raw, t.kind ≠ .illegal

lemma Ended.rest {c d : Cursor} {us : List Symbol} (h : c.Ended) (hview : c.view = us ++ d.view) :
    d.Ended := by
  have hlast := h
  rw [Ended, hview, List.getLast?_append] at hlast
  cases hd : d.view.getLast? with
  | none => exact absurd (List.getLast?_eq_none_iff.1 hd) d.view_ne_nil
  | some s =>
      rw [hd] at hlast
      rw [Ended, hd]
      exact hlast

lemma symbol_current {c : Cursor} {s : Symbol} {rest : List Symbol} (h : c.view = s :: rest) :
    c.current.symbol = s := by
  rw [view_eq] at h
  exact (List.cons.inj h).1

lemma kind_current {c : Cursor} {s : Symbol} {rest : List Symbol} (h : c.view = s :: rest) :
    c.current.kind = s.kind := by
  rw [← symbol_current h, Token.kind_symbol]

lemma kind_of_plain {c : Cursor} {kind : Kind} {rest : List Symbol}
    (h : c.view = .plain kind :: rest) : c.current.kind = kind :=
  kind_current h

end Cursor

/-! ## Readers that succeed take something -/

namespace Parse

variable {α β : Type}

/-- **If the reader `p` succeeds, it has taken a front of the view**, and `post` holds of that
front, the result and what remains of the view. -/
def Takes (p : Parse α) (c : Cursor) (post : List Symbol → α → List Symbol → Prop) : Prop :=
  c.Ended → ∀ a d, p c = (.ok a, d) → ∃ us, c.view = us ++ d.view ∧ post us a d.view

namespace Takes

variable {c : Cursor} {p : Parse α} {f : α → Parse β}
  {P P' : List Symbol → α → List Symbol → Prop} {Q : List Symbol → β → List Symbol → Prop}

lemma imp (h : Takes p c P) (himp : ∀ us a rest, P us a rest → P' us a rest) : Takes p c P' := by
  intro hc a d hp
  obtain ⟨us, hview, hP⟩ := h hc a d hp
  exact ⟨us, hview, himp us a d.view hP⟩

/-- A sequence takes what its two parts take, one behind the other. -/
lemma bind (hp : Takes p c P)
    (hf : ∀ a d us, P us a d.view → Takes (f a) d fun vs b rest => Q (us ++ vs) b rest) :
    Takes (p >>= f) c Q := by
  intro hc b e h
  obtain ⟨a, d, h₁, h₂⟩ := Attempt.bind_eq_ok.1 h
  obtain ⟨us, hus, hP⟩ := hp hc a d h₁
  obtain ⟨vs, hvs, hQ⟩ := hf a d us hP (hc.rest hus) b e h₂
  exact ⟨us ++ vs, by rw [hus, hvs, List.append_assoc], hQ⟩

lemma pure {a : α} (h : P [] a c.view) : Takes (Pure.pure a) c P := by
  intro _ b d hp
  cases hp
  exact ⟨[], rfl, h⟩

lemma pure_bind {a : α} (h : Takes (f a) c Q) : Takes (Pure.pure a >>= f) c Q := h

lemma fail {e : Error} : Takes (Attempt.fail e) c P := by
  intro _ a d h
  cases h

lemma peek {f : Token → Parse β} (h : Takes (f c.current) c Q) : Takes (Parse.peek >>= f) c Q := h

end Takes

/-- The reader `bump` takes the symbol of the token shown, except that the end of the source
stays. -/
lemma takes_bump (c : Cursor) :
    Takes bump c fun us t _ => t = c.current ∧ (t.kind ≠ .eof → us = [t.symbol]) := by
  intro hc t d h
  simp only [bump, Attempt.bind_eq_ok, peek, Attempt.modify_apply, Attempt.pure_apply,
    Prod.mk.injEq, Except.ok.injEq] at h
  obtain ⟨_, _, ⟨rfl, rfl⟩, _, _, ⟨_, rfl⟩, _, e, hfetch, rfl, rfl⟩ := h
  cases hraw : c.raw with
  | nil =>
      simp only [fetch, hraw, Prod.mk.injEq] at hfetch
      obtain ⟨_, rfl⟩ := hfetch
      refine ⟨[], by simp [Cursor.view, hraw], rfl, ?_⟩
      intro hne
      simp only [Cursor.Ended, Cursor.view, hraw, folded, List.map_cons, List.map_nil,
        List.getLast?_singleton, Option.some.injEq] at hc
      exact absurd (Token.symbol_eq_plain hc) hne
  | cons first raw =>
      simp only [fetch, hraw] at hfetch
      split at hfetch
      · next token rest hfold =>
          cases hfetch
          refine ⟨[c.current.symbol], ?_, rfl, fun _ => rfl⟩
          simp [Cursor.view, hraw, folded_of_fold hfold]
      · cases hfetch

/-- On a token of a plain kind, `bump` takes its symbol. -/
lemma takes_bump_of_kind {c : Cursor} {kind : Kind} (h : c.current.kind = kind)
    (hplain : kind.isPlain = true) :
    Takes bump c fun us _ _ => us = [.plain kind] := by
  refine (takes_bump c).imp ?_
  rintro us t rest ⟨rfl, hus⟩
  rw [hus (by rintro he; rw [he] at h; subst h; cases hplain), Token.symbol_of_isPlain h hplain]

lemma takes_expect {kind : Kind} (hplain : kind.isPlain = true) (c : Cursor) :
    Takes (expect kind) c fun us _ _ => us = [.plain kind] := by
  refine Takes.peek ?_
  split
  · next hk =>
      refine (takes_bump_of_kind hk hplain).bind fun _ _ us hus => .pure ?_
      rw [List.append_nil, hus]
  · exact .fail

lemma takes_expectGap (c : Cursor) : Takes expectGap c fun us _ _ => us = [.gap] := by
  refine Takes.peek ?_
  split
  · exact .fail
  · exact takes_expect rfl c

/-! ## Readers that get somewhere -/

end Parse

/-- The tokens of the cursor are legal, and the last of them is the end. -/
structure Cursor.Clean (c : Cursor) : Prop where
  ended : c.Ended
  legal : c.Legal

namespace Parse

variable {α β : Type}

/-- **The reader `p` succeeds**, `rest` remains of the view, and `post` holds of the result. -/
def Reaches (p : Parse α) (c : Cursor) (rest : List Symbol) (post : α → Prop) : Prop :=
  ∃ a d, p c = (.ok a, d) ∧ d.Clean ∧ d.view = rest ∧ post a

namespace Reaches

variable {c : Cursor} {rest mid : List Symbol} {p : Parse α} {f : α → Parse β} {P : α → Prop}
  {Q : β → Prop}

lemma bind (hp : Reaches p c mid P)
    (hf : ∀ a d, d.Clean → d.view = mid → P a → Reaches (f a) d rest Q) :
    Reaches (p >>= f) c rest Q := by
  obtain ⟨a, d, h₁, hd, hview, hP⟩ := hp
  obtain ⟨b, e, h₂, he, hview', hQ⟩ := hf a d hd hview hP
  exact ⟨b, e, Attempt.bind_eq_ok.2 ⟨a, d, h₁, h₂⟩, he, hview', hQ⟩

lemma imp {P' : α → Prop} (h : Reaches p c rest P) (himp : ∀ a, P a → P' a) :
    Reaches p c rest P' := by
  obtain ⟨a, d, hp, hd, hview, hP⟩ := h
  exact ⟨a, d, hp, hd, hview, himp a hP⟩

lemma pure {a : α} (hc : c.Clean) (hview : c.view = rest) (h : P a) :
    Reaches (Pure.pure a) c rest P :=
  ⟨a, c, rfl, hc, hview, h⟩

lemma peek {f : Token → Parse β} (h : Reaches (f c.current) c rest Q) :
    Reaches (Parse.peek >>= f) c rest Q := h

end Reaches

lemma reaches_bump {c : Cursor} {s : Symbol} {rest : List Symbol} (hc : c.Clean)
    (hview : c.view = s :: rest) (hs : s.kind ≠ .eof) :
    Reaches bump c rest fun t => t = c.current := by
  have hlast : c.raw ≠ [] := by
    intro hraw
    have hended := hc.ended
    rw [Cursor.Ended, Cursor.view_eq, hraw] at hended
    simp only [folded, List.map_nil, List.getLast?_singleton, Option.some.injEq] at hended
    rw [← Cursor.kind_current hview] at hs
    exact hs (Token.symbol_eq_plain hended)
  obtain ⟨first, raw, hraw⟩ := List.exists_cons_of_ne_nil hlast
  obtain ⟨token, left, hfold, hsuffix⟩ :=
    exists_fold (hc.legal first (by rw [hraw]; exact List.mem_cons_self)) raw
  refine ⟨c.current, ⟨token, left, c.current.span.stop⟩, ?_, ?_, ?_, rfl⟩
  · refine Attempt.bind_eq_ok.2 ⟨_, _, rfl, Attempt.bind_eq_ok.2 ⟨_, _, rfl,
      Attempt.bind_eq_ok.2 ⟨(), _, ?_, rfl⟩⟩⟩
    simp [fetch, hraw, hfold]
  · refine ⟨?_, ?_⟩
    · have hstep : c.view =
          [c.current.symbol] ++ Cursor.view ⟨token, left, c.current.span.stop⟩ := by
        simp [Cursor.view, hraw, folded_of_fold hfold]
      exact hc.ended.rest hstep
    · intro t ht
      exact hc.legal t (by rw [hraw]; exact List.mem_cons_of_mem _ (hsuffix.mem ht))
  · rw [Cursor.view_eq, hraw, folded_of_fold hfold] at hview
    exact (List.cons.inj hview).2

lemma reaches_expect {c : Cursor} {kind : Kind} {rest : List Symbol} (hc : c.Clean)
    (hview : c.view = .plain kind :: rest) (hkind : kind ≠ .eof) :
    Reaches (expect kind) c rest fun _ => True := by
  refine Reaches.peek ?_
  rw [if_pos (Cursor.kind_of_plain hview)]
  exact (reaches_bump hc hview hkind).bind fun _ d hd hrest _ => .pure hd hrest trivial

lemma reaches_expectGap {c : Cursor} {rest : List Symbol} (hc : c.Clean)
    (hview : c.view = .gap :: rest) : Reaches expectGap c rest fun _ => True := by
  refine Reaches.peek ?_
  rw [if_neg (by rw [Cursor.kind_of_plain hview]; simp)]
  exact reaches_expect hc hview (by simp)

end Parse

end Runic
