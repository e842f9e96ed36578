import Runic.Proofs.Node.View
import Runic.Proofs.Token.Cutting

/-!
# Two readers abreast

Two cursors that show the same symbols, apart from layout behind the last of them, are read alike:
both readers succeed with trees that differ in nothing but their places, or both fail in the same
way.

* `Cursor.Abreast` — the cursors show the same symbols, and then nothing but layout.
* `Parse.Agree` — two readers do alike from such cursors.  There is one rule for each way in which
  readers are put together.
* `Parse.Starves` — a reader that finds nothing but layout says so.  It is needed where one of the
  readers takes the layout at the end for a separator and the other one does not.
-/

namespace Runic

open Runic.Symbol (mark ace gap)

/-- The kind is neither a separator nor the end of the source. -/
def Kind.isSolid (kind : Kind) : Bool := !kind.isSeparator && decide (kind ≠ .eof)

/-! ## Cursors on the same symbols -/

/-- The end of a source, with a separator in front of it or not. -/
def IsTail (ts : List Symbol) : Prop :=
  ts = [.eof] ∨ ∃ s, s.kind.isSeparator = true ∧ ts = [s, .eof]

/-- The symbols can stand in front of an `IsTail`: none of them is the end, and the last of them is
no separator. -/
structure IsBody (ts : List Symbol) : Prop where
  eof_notMem : Symbol.eof ∉ ts
  last : ∀ s ∈ ts.getLast?, s.kind.isSeparator = false

namespace IsBody

variable {s : Symbol} {ts : List Symbol}

lemma tail (h : IsBody (s :: ts)) : IsBody ts where
  eof_notMem hmem := h.eof_notMem (List.mem_cons_of_mem s hmem)
  last u hu := by
    obtain ⟨us, rfl⟩ := List.getLast?_eq_some_iff.1 hu
    exact h.last u (by rw [← List.cons_append, List.getLast?_concat]; rfl)

lemma kind_ne_eof (h : IsBody (s :: ts)) : s.kind ≠ .eof := by
  intro hs
  refine h.eof_notMem (List.mem_cons.2 (.inl ?_))
  cases s <;> simp_all

end IsBody

namespace Cursor

/-- The view of the cursor is `body`, and then nothing but layout and the end. -/
def Shows (c : Cursor) (body : List Symbol) : Prop := ∃ rest, IsTail rest ∧ c.view = body ++ rest

/-- The view of the cursor is nothing but layout and the end. -/
def Spent (c : Cursor) : Prop := c.Shows []

/-- Both cursors show the same symbols `body`, at most `n` of them, and then nothing but layout. -/
def Abreast (n : Nat) (c d : Cursor) : Prop :=
  ∃ body, IsBody body ∧ body.length ≤ n ∧ c.Shows body ∧ d.Shows body

variable {n : Nat} {c d : Cursor}

lemma Spent.view (h : c.Spent) :
    c.view = [.eof] ∨ ∃ s, s.kind.isSeparator = true ∧ c.view = [s, .eof] := by
  obtain ⟨rest, hrest, hview⟩ := h
  rwa [hview]

lemma Spent.kind (h : c.Spent) : c.current.kind = .eof ∨ c.current.kind.isSeparator = true := by
  rcases h.view with hview | ⟨s, hs, hview⟩
  · exact .inl (kind_of_plain hview)
  · exact .inr (by rwa [kind_current hview])

lemma Spent.kind_ne (h : c.Spent) {kind : Kind} (hkind : kind.isSolid = true) :
    c.current.kind ≠ kind := by
  rintro rfl
  rcases h.kind with hk | hk <;> simp [Kind.isSolid, hk] at hkind

lemma Shows.symbol {s : Symbol} {body : List Symbol} (h : c.Shows (s :: body)) :
    c.current.symbol = s := by
  obtain ⟨rest, -, hview⟩ := h
  exact symbol_current hview

lemma Shows.kind {s : Symbol} {body : List Symbol} (h : c.Shows (s :: body)) :
    c.current.kind = s.kind := by
  rw [← h.symbol, Token.kind_symbol]

lemma Shows.abreast {s : Symbol} {body : List Symbol} (hc : c.Shows (s :: body))
    (hd : d.Shows (s :: body)) (hbody : IsBody (s :: body)) (hlength : body.length < n) :
    Abreast n c d :=
  ⟨s :: body, hbody, hlength, hc, hd⟩

/-- Two cursors abreast are both spent, or both show the same symbol in front and are abreast behind
it. -/
lemma Abreast.cases (h : Abreast n c d) : c.Spent ∧ d.Spent ∨
    ∃ s body, IsBody (s :: body) ∧ body.length < n ∧ c.Shows (s :: body) ∧ d.Shows (s :: body) := by
  obtain ⟨body, hbody, hlength, hc, hd⟩ := h
  cases body with
  | nil => exact .inl ⟨hc, hd⟩
  | cons s body => exact .inr ⟨s, body, hbody, hlength, hc, hd⟩

/-- Two cursors abreast show tokens of the same solid kind, or both of them none. -/
lemma Abreast.kind_iff (h : Abreast n c d) {kind : Kind} (hkind : kind.isSolid = true) :
    c.current.kind = kind ↔ d.current.kind = kind := by
  rcases h.cases with ⟨hc, hd⟩ | ⟨s, body, -, -, hc, hd⟩
  · exact iff_of_false (hc.kind_ne hkind) (hd.kind_ne hkind)
  · rw [hc.kind, hd.kind]

end Cursor

/-! ## One token -/

lemma head_folded_illegal (first : Token) (raw : List Token) :
    ((folded (first :: raw)).map Token.symbol).head? = some (.plain .illegal) ↔
      first.kind = .illegal := by
  rcases folded_cons first raw with ⟨-, h⟩ | ⟨hl, sep, hsep, h⟩
  · rw [h, List.map_cons, List.head?_cons, Option.some.injEq]
    refine ⟨Token.symbol_eq_plain, fun hkind => Token.symbol_of_isPlain hkind rfl⟩
  · have hfirst : first.kind ≠ .illegal := by
      intro hkind
      rw [hkind] at hl
      cases hl
    have hhead : sep.symbol ≠ .plain .illegal := by
      intro hsymbol
      rw [Token.symbol_eq_plain hsymbol] at hsep
      cases hsep
    rcases h with ⟨h, -⟩ | ⟨next, rest, -, -, h⟩ <;> simp [h, hhead, hfirst]

namespace Parse

open Cursor (Abreast)

/-- The reader `bump` sets `prevEnd` and then fetches the next token. -/
lemma bump_eq (c : Cursor) :
    bump c = (do fetch; return c.current : Parse Token) { c with prevEnd := c.current.span.stop } :=
  rfl

/-- The reader `bump` fails exactly in front of an illegal token, and otherwise moves the view by
one symbol. -/
lemma bump_of_view {c : Cursor} {s u : Symbol} {rest : List Symbol} (h : c.view = s :: u :: rest) :
    u = .plain .illegal ∧ (∃ span text d, bump c = (.error (.illegal span text), d)) ∨
      u ≠ .plain .illegal ∧ ∃ d, bump c = (.ok c.current, d) ∧ d.view = u :: rest := by
  have hraw : (folded c.raw).map Token.symbol = u :: rest := by
    rw [Cursor.view_eq] at h
    exact (List.cons.inj h).2
  obtain ⟨first, raw, hcons⟩ : ∃ first raw, c.raw = first :: raw := by
    refine List.exists_cons_of_ne_nil fun hnil => ?_
    rw [hnil] at hraw
    cases hraw
  rw [hcons] at hraw
  have hhead := head_folded_illegal first raw
  rw [hraw, List.head?_cons, Option.some.injEq] at hhead
  by_cases hkind : first.kind = .illegal
  · refine .inl ⟨hhead.2 hkind, first.span, first.text, ⟨c.current, raw, c.current.span.stop⟩, ?_⟩
    rw [bump_eq, Attempt.bind_apply]
    simp only [fetch, hcons, fold, hkind]
  · obtain ⟨token, left, hfold, -⟩ := exists_fold hkind raw
    refine .inr ⟨fun hu => hkind (hhead.1 hu), ⟨token, left, c.current.span.stop⟩, ?_, ?_⟩
    · rw [bump_eq, Attempt.bind_apply]
      simp only [fetch, hcons, hfold, Attempt.pure_apply]
    · rwa [folded_of_fold hfold] at hraw

/-- On a spent cursor `bump` succeeds and leaves it spent. -/
lemma bump_of_spent {c : Cursor} (h : c.Spent) :
    ∃ d, bump c = (.ok c.current, d) ∧ d.Spent := by
  rcases h.view with hview | ⟨s, -, hview⟩
  · have hraw : c.raw = [] := by
      rw [Cursor.view_eq] at hview
      exact folded_eq_nil.1 (List.map_eq_nil_iff.1 (List.cons.inj hview).2)
    refine ⟨{ c with prevEnd := c.current.span.stop }, ?_, [.eof], .inl rfl, hview⟩
    rw [bump_eq, Attempt.bind_apply]
    simp only [fetch, hraw, Attempt.pure_apply]
  · rcases bump_of_view hview with ⟨hu, -⟩ | ⟨-, d, hbump, hd⟩
    · cases hu
    · exact ⟨d, hbump, [.eof], .inl rfl, hd⟩

/-- On a cursor that shows `s :: body`, `bump` leaves one that shows `body`, unless the first of
`body` is illegal. -/
lemma bump_of_shows {c : Cursor} {s : Symbol} {body : List Symbol} (h : c.Shows (s :: body)) :
    body.head? = some (.plain .illegal) ∧ (∃ span text d, bump c = (.error (.illegal span text), d)) ∨
      body.head? ≠ some (.plain .illegal) ∧ ∃ d, bump c = (.ok c.current, d) ∧ d.Shows body := by
  obtain ⟨rest, hrest, hview⟩ := h
  cases body with
  | nil =>
      obtain ⟨u, ts, rfl, hu⟩ : ∃ u ts, rest = u :: ts ∧ u ≠ .plain .illegal := by
        rcases hrest with rfl | ⟨u, hu, rfl⟩
        · exact ⟨_, _, rfl, by simp⟩
        · refine ⟨_, _, rfl, ?_⟩
          rintro rfl
          cases hu
      rcases bump_of_view hview with ⟨hillegal, -⟩ | ⟨-, d, hbump, hd⟩
      · exact absurd hillegal hu
      · exact .inr ⟨by simp, d, hbump, _, hrest, hd⟩
  | cons u body =>
      rcases bump_of_view hview with ⟨rfl, hbump⟩ | ⟨hu, d, hbump, hd⟩
      · exact .inl ⟨rfl, hbump⟩
      · exact .inr ⟨by simpa using hu, d, hbump, rest, hrest, hd⟩

/-! ## Readers that find nothing -/

variable {α β : Type}

/-- From `c` the reader `p` fails with an error of parsing, not for an illegal token. -/
def Complains (p : Parse α) (c : Cursor) : Prop :=
  ∃ span fault d, p c = (.error (.parse span fault), d)

/-- On every spent cursor the reader complains. -/
def Starves (p : Parse α) : Prop := ∀ c : Cursor, c.Spent → Complains p c

lemma complains_fail {span : Span} {fault : ParseFault} {c : Cursor} :
    Complains (fail span fault : Parse α) c :=
  ⟨span, fault, c, rfl⟩

namespace Starves

variable {p : Parse α} {f : α → Parse β}

lemma bind (h : Starves p) : Starves (p >>= f) := by
  intro c hc
  obtain ⟨span, fault, d, hrun⟩ := h c hc
  exact ⟨span, fault, d, by rw [Attempt.bind_apply, hrun]⟩

/-- A sequence starves if its first part complains or leaves the cursor spent, and its second part
starves. -/
lemma seq (hp : ∀ c : Cursor, c.Spent → Complains p c ∨ ∃ a d, p c = (.ok a, d) ∧ d.Spent)
    (hf : ∀ a, Starves (f a)) : Starves (p >>= f) := by
  intro c hc
  rcases hp c hc with ⟨span, fault, d, hrun⟩ | ⟨a, d, hrun, hd⟩
  · exact ⟨span, fault, d, by rw [Attempt.bind_apply, hrun]⟩
  · obtain ⟨span, fault, e, hrun'⟩ := hf a d hd
    exact ⟨span, fault, e, by rw [Attempt.bind_apply, hrun]; exact hrun'⟩

lemma peek {f : Token → Parse α} (h : ∀ t, Starves (f t)) : Starves (Parse.peek >>= f) :=
  fun c hc => h c.current c hc

end Starves

/-! ## Readers that do alike -/

/-- The outcomes are alike: two successes with results in `post` and cursors abreast, or two
failures of the same kind. -/
def Alike (x y : Except Error α × Cursor) (post : Nat → α → α → Prop) : Prop :=
  (∃ a b c d m, x = (.ok a, c) ∧ y = (.ok b, d) ∧ Abreast m c d ∧ post m a b) ∨
    ∃ e f c d, x = (.error e, c) ∧ y = (.error f, d) ∧ e.ctorIdx = f.ctorIdx

/-- **From any two cursors abreast for `n` symbols, the outcomes of `p` and `q` are alike.** -/
def Agree (n : Nat) (p q : Parse α) (post : Nat → α → α → Prop) : Prop :=
  ∀ c d : Cursor, Abreast n c d → Alike (p c) (q d) post

namespace Alike

variable {p q : Parse α} {f g : α → Parse β} {post : Nat → α → α → Prop}
  {post' : Nat → β → β → Prop} {c d : Cursor} {n : Nat}

lemma pure {a b : α} (h : Abreast n c d) (hpost : post n a b) :
    Alike ((Pure.pure a : Parse α) c) ((Pure.pure b : Parse α) d) post :=
  .inl ⟨a, b, c, d, n, rfl, rfl, h, hpost⟩

lemma of_complains (hc : Complains p c) (hd : Complains q d) : Alike (p c) (q d) post := by
  obtain ⟨span, fault, c', hp⟩ := hc
  obtain ⟨span', fault', d', hq⟩ := hd
  exact .inr ⟨_, _, _, _, hp, hq, rfl⟩

lemma bind (h : Alike (p c) (q d) post) (hf : ∀ m a b, post m a b → Agree m (f a) (g b) post') :
    Alike ((p >>= f) c) ((q >>= g) d) post' := by
  rcases h with ⟨a, b, c', d', m, hp, hq, habreast, hpost⟩ | ⟨e, e', c', d', hp, hq, hsame⟩
  · rw [Attempt.bind_apply, Attempt.bind_apply, hp, hq]
    exact hf m a b hpost c' d' habreast
  · rw [Attempt.bind_apply, Attempt.bind_apply, hp, hq]
    exact .inr ⟨e, e', c', d', rfl, rfl, hsame⟩

end Alike

/-- Of two cursors that show the same symbol, `bump` takes it from both or finds an illegal one
behind it in both. -/
lemma Alike.bump {c d : Cursor} {s : Symbol} {body : List Symbol} {f g : Token → Parse α}
    {post : Nat → α → α → Prop} (hc : c.Shows (s :: body)) (hd : d.Shows (s :: body))
    (h : ∀ c' d' : Cursor, c'.Shows body → d'.Shows body →
      Alike (f c.current c') (g d.current d') post) :
    Alike ((Parse.bump >>= f) c) ((Parse.bump >>= g) d) post := by
  rw [Attempt.bind_apply, Attempt.bind_apply]
  rcases bump_of_shows hc with ⟨hhead, span, text, c', hrun⟩ | ⟨hhead, c', hrun, hc'⟩ <;>
    rcases bump_of_shows hd with ⟨hhead', span', text', d', hrun'⟩ | ⟨hhead', d', hrun', hd'⟩
  · rw [hrun, hrun']
    exact .inr ⟨_, _, _, _, rfl, rfl, rfl⟩
  · exact absurd hhead hhead'
  · exact absurd hhead' hhead
  · rw [hrun, hrun']
    exact h c' d' hc' hd'

namespace Alike

variable {p q : Parse α} {post : Nat → α → α → Prop} {c d : Cursor} {n : Nat}

/-- Two readers that test for a token of a solid kind go the same way from cursors abreast. -/
lemma test {kind : Kind} (hkind : kind.isSolid = true) {p' q' : Parse α} (h : Abreast n c d)
    (hyes : c.current.kind = kind → d.current.kind = kind → Alike (p c) (q d) post)
    (hno : Alike (p' c) (q' d) post) :
    Alike ((if c.current.kind = kind then p else p') c)
      ((if d.current.kind = kind then q else q') d) post := by
  by_cases hc : c.current.kind = kind
  · have hd := (h.kind_iff hkind).1 hc
    rw [if_pos hc, if_pos hd]
    exact hyes hc hd
  · rwa [if_neg hc, if_neg fun hd => hc ((h.kind_iff hkind).2 hd)]

/-- Two readers that take a token of a solid kind if it is shown, and otherwise go on with `p` and
`q`, are alike if what follows is. -/
lemma choose {kind : Kind} (hkind : kind.isSolid = true) {f g : Token → Parse α}
    (h : Abreast n c d) (hyes : ∀ m < n, ∀ t u, Agree m (f t) (g u) post)
    (hno : Alike (p c) (q d) post) :
    Alike ((if c.current.kind = kind then Parse.bump >>= f else p) c)
      ((if d.current.kind = kind then Parse.bump >>= g else q) d) post := by
  refine .test hkind h (fun hk _ => ?_) hno
  rcases h.cases with ⟨hc, -⟩ | ⟨s, body, hbody, hlength, hc, hd⟩
  · exact absurd hk (hc.kind_ne hkind)
  · refine .bump hc hd fun c' d' hc' hd' => ?_
    exact hyes _ hlength _ _ c' d' ⟨body, hbody.tail, Nat.le_refl _, hc', hd'⟩

end Alike

namespace Agree

variable {p q : Parse α} {f g : α → Parse β} {post post' : Nat → α → α → Prop}
  {post'' : Nat → β → β → Prop} {n : Nat}

lemma pure {a b : α} (h : post n a b) : Agree n (Pure.pure a) (Pure.pure b) post :=
  fun _ _ habreast => .pure habreast h

lemma fail {span span' : Span} {fault fault' : ParseFault} :
    Agree n (Parse.fail span fault) (Parse.fail span' fault') post :=
  fun _ _ _ => .of_complains complains_fail complains_fail

lemma bind (h : Agree n p q post) (hf : ∀ m a b, post m a b → Agree m (f a) (g b) post'') :
    Agree n (p >>= f) (q >>= g) post'' :=
  fun c d habreast => (h c d habreast).bind hf

lemma imp (h : Agree n p q post) (himp : ∀ m a b, post m a b → post' m a b) :
    Agree n p q post' := by
  intro c d habreast
  rcases h c d habreast with ⟨a, b, c', d', m, hp, hq, hm, hpost⟩ | hfail
  · exact .inl ⟨a, b, c', d', m, hp, hq, hm, himp m a b hpost⟩
  · exact .inr hfail

lemma peek {f g : Token → Parse α}
    (h : ∀ c d, Abreast n c d → Alike (f c.current c) (g d.current d) post) :
    Agree n (Parse.peek >>= f) (Parse.peek >>= g) post :=
  h

/-- The same as `Alike.choose`, for readers that look at the token first. -/
lemma choose {kind : Kind} (hkind : kind.isSolid = true) {f g : Token → Parse α}
    {p q : Token → Parse α} (hyes : ∀ m < n, ∀ t u, Agree m (f t) (g u) post)
    (hno : ∀ t u, Agree n (p t) (q u) post) :
    Agree n (do let t ← Parse.peek; if t.kind = kind then bump >>= f else p t)
      (do let t ← Parse.peek; if t.kind = kind then bump >>= g else q t) post :=
  .peek fun c d h => .choose hkind h hyes (hno c.current d.current c d h)

/-- Two readers that starve agree if they are alike on cursors that show a symbol in front. -/
lemma of_starves (hp : Starves p) (hq : Starves q)
    (h : ∀ c d s body, IsBody (s :: body) → body.length < n → c.Shows (s :: body) →
      d.Shows (s :: body) → Alike (p c) (q d) post) : Agree n p q post := by
  intro c d habreast
  rcases habreast.cases with ⟨hc, hd⟩ | ⟨s, body, hbody, hlength, hc, hd⟩
  · exact .of_complains (hp c hc) (hq d hd)
  · exact h c d s body hbody hlength hc hd

end Agree

/-! ## Marks and separators -/

lemma agree_expect {n : Nat} {kind : Kind} (hkind : kind.isSolid = true) :
    Agree n (expect kind) (expect kind) fun m _ _ => m < n :=
  .choose hkind (fun _ hm _ _ => .pure hm) fun _ _ => .fail

/-- A reader of a separator, which one of two cursors abreast may find at the end of the source
where the other one does not. -/
structure Separates (p : Parse Unit) : Prop where
  spent : ∀ c : Cursor, c.Spent → Complains p c ∨ ∃ a d, p c = (.ok a, d) ∧ d.Spent
  alike : ∀ (c d : Cursor) (s : Symbol) (body : List Symbol), IsBody (s :: body) →
    c.Shows (s :: body) → d.Shows (s :: body) →
    Alike (p c) (p d) fun m _ _ => m = body.length

/-- Take a token of the kind `kind`, or complain about the one that is shown. -/
def take (kind : Kind) (fault : Token → ParseFault) : Parse Unit := do
  let token ← peek
  if token.kind = kind then
    let _ ← bump
  else
    fail token.span (fault token)

lemma take_bind {kind : Kind} {fault : Token → ParseFault} {f : Unit → Parse α} (c : Cursor) :
    (take kind fault >>= f) c =
      (if c.current.kind = kind then bump >>= fun _ => f ()
      else fail c.current.span (fault c.current)) c := by
  change ((if c.current.kind = kind then bump >>= fun _ => pure ()
    else fail c.current.span (fault c.current)) >>= f) c = _
  split
  · rw [bind_assoc]
    rfl
  · rfl

lemma separates_take (kind : Kind) (fault : Token → ParseFault) : Separates (take kind fault) where
  spent c hc := by
    by_cases hkind : c.current.kind = kind
    · obtain ⟨d, hbump, hd⟩ := bump_of_spent hc
      refine .inr ⟨(), d, ?_, hd⟩
      rw [take, Attempt.bind_apply]
      simp only [peek, hkind, if_true, Attempt.bind_apply, hbump]
      rfl
    · refine .inl ⟨c.current.span, fault c.current, c, ?_⟩
      simp [take, Attempt.bind_apply, peek, hkind, fail]
  alike c d s body hbody hc hd := by
    have hrun : ∀ e : Cursor, e.Shows (s :: body) → take kind fault e =
        (if s.kind = kind then bump >>= fun _ => pure ()
        else fail e.current.span (fault e.current)) e := by
      intro e he
      rw [← he.kind]
      rfl
    rw [hrun c hc, hrun d hd]
    split
    · refine .bump hc hd fun c' d' hc' hd' => ?_
      exact .pure ⟨body, hbody.tail, Nat.le_refl _, hc', hd'⟩ rfl
    · exact .of_complains complains_fail complains_fail

lemma separates_expect (kind : Kind) : Separates (expect kind) :=
  separates_take kind (.expected kind)

lemma separates_expectGap : Separates expectGap where
  spent c hc := by
    by_cases hkind : c.current.kind = .ace
    · refine .inl ⟨c.current.span, .aceForGap, c, ?_⟩
      simp [expectGap, Attempt.bind_apply, peek, hkind, fail]
    · have hrun : expectGap c = expect .gap c := by
        simp [expectGap, Attempt.bind_apply, peek, hkind]
      unfold Complains
      rw [hrun]
      exact (separates_expect .gap).spent c hc
  alike c d s body hbody hc hd := by
    have hrun : ∀ e : Cursor, e.Shows (s :: body) → expectGap e =
        (if s.kind = .ace then fail e.current.span .aceForGap else expect .gap) e := by
      intro e he
      rw [← he.kind]
      rfl
    rw [hrun c hc, hrun d hd]
    split
    · exact .of_complains complains_fail complains_fail
    · exact (separates_expect .gap).alike c d s body hbody hc hd

/-- Two sequences that start with a reader of a separator agree if what follows starves and
agrees. -/
lemma Agree.separate {p : Parse Unit} {f g : Unit → Parse α} {post : Nat → α → α → Prop} {n : Nat}
    (hp : Separates p) (hf : Starves (f ())) (hg : Starves (g ()))
    (h : ∀ m < n, Agree m (f ()) (g ()) post) : Agree n (p >>= f) (p >>= g) post := by
  refine .of_starves (.seq hp.spent fun _ => hf) (.seq hp.spent fun _ => hg) ?_
  intro c d s body hbody hlength hc hd
  refine (hp.alike c d s body hbody hc hd).bind ?_
  rintro m _ _ rfl
  exact h _ hlength

end Parse

end Runic
