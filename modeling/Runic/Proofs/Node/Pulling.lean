import Runic.Proofs.Node.Progress
import Runic.Proofs.Token.Interleaving
import Runic.Proofs.Token.LayoutRuns

/-!
# Folding while pulling

A cursor has all tokens of its source at hand.  One can also be had with a lexer alone, which is
asked for a token only when one is due.  To fold a run of layout then is to read one token too many,
which is put aside (`Feed.pending`) and comes before those of the lexer.

* `Feed.Streams` — the tokens that come are those of a list, and then the end of the source again
  and again.
* `Feed.Streams.fold` — folding from a feed is folding from the list that it streams.
* `Puller` — a cursor on a feed; `Puller.Follows.bump` sets it beside one that has a list.
* `shown_bump` — what a cursor shows, one token after the other.
* `folding_on_demand` — **both show the tokens of the source, folded**, up to an illegal one.
-/

namespace Runic

/-! ## Tokens one by one -/

/-- A lexer, and a token that was taken from it too early and put aside. -/
structure Feed where
  lexer : Lexer
  pending : Option Token
deriving DecidableEq, Repr

/-- The token that `fold` makes of layout, and the tokens that it leaves. -/
lemma fold_layout {first : Token} (h : first.kind.isLayout = true) (raw : List Token) :
    fold first raw =
      (.ok { first with
          kind := if raw.takeWhile (·.kind.isLayout) = [] ∧ first.kind ≠ .comment then first.kind
            else .gap
          span := (raw.takeWhile (·.kind.isLayout)).foldl (fun span t => span.merge t.span)
            first.span },
        raw.dropWhile (·.kind.isLayout)) := by
  cases hk : first.kind <;> simp_all [fold, Kind.isLayout]

namespace Feed

/-- The next token of a feed: the one that was put aside, or one that is cut now. -/
def pull (feed : Feed) : Token × Feed :=
  match feed.pending with
  | some token => (token, { feed with pending := none })
  | none => (feed.lexer.nextToken.1, { feed with lexer := feed.lexer.nextToken.2 })

/-- A measure of what is to come: the characters of the lexer and the token that was put aside. -/
def left (feed : Feed) : Nat := feed.lexer.rest.length + feed.pending.toList.length

lemma left_pull {feed : Feed} (h : feed.pull.1.kind ≠ .eof) : feed.pull.2.left < feed.left := by
  obtain ⟨⟨offset, rest, finished⟩, pending⟩ := feed
  cases pending with
  | some token => exact Nat.lt_succ_self _
  | none =>
      cases rest with
      | nil => exact absurd rfl h
      | cons c cs => exact scan_rest_lt c cs

/-- Take all layout that comes next, with a span over it and a count.  The token behind it is put
aside. -/
def gather (span : Span) (count : Nat) (feed : Feed) : Span × Nat × Feed :=
  if feed.pull.1.kind.isLayout then gather (span.merge feed.pull.1.span) (count + 1) feed.pull.2
  else (span, count, { feed.pull.2 with pending := some feed.pull.1 })
termination_by feed.left
decreasing_by
  refine left_pull fun hk => ?_
  simp_all [Kind.isLayout]

/-- Join a token with the layout that comes next, if it is layout itself. -/
def fold (first : Token) (feed : Feed) : Except Error Token × Feed :=
  if first.kind = .illegal then (.error (.illegal first.span first.text), feed)
  else if first.kind.isLayout then
    let run := feed.gather first.span 1
    let kind := if 1 < run.2.1 ∨ first.kind = .comment then .gap else first.kind
    (.ok { first with kind, span := run.1 }, run.2.2)
  else (.ok first, feed)

/-- The next token of a feed, joined with the layout behind it. -/
def next (feed : Feed) : Except Error Token × Feed := feed.pull.2.fold feed.pull.1

/-! ## Streams -/

/-- The token number `i` that comes from a feed. -/
def upcoming (feed : Feed) : Nat → Token
  | 0 => feed.pull.1
  | i + 1 => feed.pull.2.upcoming i

/-- The tokens of `raw` come from the feed, and then the end of a source of `size` bytes again and
again. -/
def Streams (size : Nat) (raw : List Token) (feed : Feed) : Prop :=
  ∀ i, feed.upcoming i = raw.getD i (.eof size)

lemma upcoming_lexer (lexer : Lexer) (i : Nat) :
    upcoming ⟨lexer, none⟩ i = lexer.upcoming i := by
  induction i generalizing lexer with
  | zero => exact lexer.upcoming_zero.symm
  | succ i ih =>
      rw [lexer.upcoming_succ]
      exact ih lexer.nextToken.2

lemma streams_ofSource (source : String) :
    Streams source.utf8ByteSize (lex source) ⟨Lexer.ofSource source, none⟩ := by
  intro i
  rw [upcoming_lexer, Lexer.upcoming, Lexer.ofSource, Nat.zero_add, byteLength_toList]
  rfl

/-- A token that is put aside comes again. -/
lemma upcoming_putBack (feed : Feed) (i : Nat) :
    upcoming { feed.pull.2 with pending := some feed.pull.1 } i = feed.upcoming i := by
  have hback : pull { feed.pull.2 with pending := some feed.pull.1 } = feed.pull := by
    obtain ⟨lexer, pending⟩ := feed
    cases pending <;> rfl
  cases i with
  | zero => exact congrArg Prod.fst hback
  | succ i => exact congrArg (fun pulled => upcoming pulled.2 i) hback

namespace Streams

variable {size : Nat} {t : Token} {raw : List Token} {feed : Feed}

lemma pull_cons (h : Streams size (t :: raw) feed) :
    feed.pull.1 = t ∧ Streams size raw feed.pull.2 :=
  ⟨h 0, fun i => h (i + 1)⟩

lemma pull_nil (h : Streams size [] feed) :
    feed.pull.1 = .eof size ∧ Streams size [] feed.pull.2 :=
  ⟨h 0, fun i => h (i + 1)⟩

lemma putBack (h : Streams size raw feed) :
    Streams size raw { feed.pull.2 with pending := some feed.pull.1 } :=
  fun i => (upcoming_putBack feed i).trans (h i)

/-- The function `gather` takes the layout in front of `raw`, and what is behind it still comes. -/
lemma gather (h : Streams size raw feed) (span : Span) (count : Nat) :
    ∃ rest, feed.gather span count =
        ((raw.takeWhile (·.kind.isLayout)).foldl (fun span t => span.merge t.span) span,
          count + (raw.takeWhile (·.kind.isLayout)).length, rest) ∧
      Streams size (raw.dropWhile (·.kind.isLayout)) rest := by
  induction raw generalizing feed span count with
  | nil =>
      refine ⟨_, ?_, h.putBack⟩
      have hend : feed.pull.1.kind.isLayout ≠ true := by
        rw [h.pull_nil.1]
        exact Bool.false_ne_true
      rw [Feed.gather, if_neg hend]
      rfl
  | cons t raw ih =>
      obtain ⟨hpull, hrest⟩ := h.pull_cons
      rw [Feed.gather, hpull, List.takeWhile_cons, List.dropWhile_cons]
      split
      · obtain ⟨rest, hgather, hstreams⟩ := ih hrest (span.merge t.span) (count + 1)
        refine ⟨rest, ?_, hstreams⟩
        rw [hgather, List.foldl_cons, List.length_cons, Nat.add_assoc, Nat.add_comm 1]
      · exact ⟨_, rfl, hpull ▸ h.putBack⟩

/-- **The function `Feed.fold` does what `fold` does on the list of tokens that come.** -/
lemma fold (h : Streams size raw feed) (first : Token) :
    ∃ rest, feed.fold first = ((Runic.fold first raw).1, rest) ∧
      Streams size (Runic.fold first raw).2 rest := by
  by_cases hk : first.kind = .illegal
  · refine ⟨feed, ?_, ?_⟩ <;> simp [Feed.fold, Runic.fold, hk, h]
  by_cases hl : first.kind.isLayout = true
  · obtain ⟨rest, hgather, hrest⟩ := h.gather first.span 1
    have hkind : (if 1 < 1 + (raw.takeWhile (·.kind.isLayout)).length ∨ first.kind = .comment
          then Kind.gap else first.kind) =
        if raw.takeWhile (·.kind.isLayout) = [] ∧ first.kind ≠ .comment then first.kind
          else .gap := by
      cases raw.takeWhile (·.kind.isLayout) <;> by_cases hc : first.kind = .comment <;> simp [hc]
    refine ⟨rest, ?_, ?_⟩
    · rw [Feed.fold, if_neg hk, if_pos hl, hgather, fold_layout hl]
      simp only [hkind]
    · rwa [fold_layout hl]
  · have hfold : Runic.fold first raw = (.ok first, raw) := by
      rcases fold_cases first raw with ⟨hk', -⟩ | ⟨hl', -⟩ | ⟨-, hfold⟩
      · exact absurd hk' hk
      · exact absurd hl' hl
      · exact hfold
    rw [hfold]
    exact ⟨feed, by rw [Feed.fold, if_neg hk, if_neg hl], h⟩

lemma next_cons (h : Streams size (t :: raw) feed) :
    ∃ rest, feed.next = ((Runic.fold t raw).1, rest) ∧
      Streams size (Runic.fold t raw).2 rest := by
  obtain ⟨hpull, hrest⟩ := h.pull_cons
  rw [Feed.next, hpull]
  exact hrest.fold t

lemma next_nil (h : Streams size [] feed) :
    ∃ rest, feed.next = (.ok (.eof size), rest) ∧ Streams size [] rest := by
  obtain ⟨hpull, hrest⟩ := h.pull_nil
  rw [Feed.next, hpull]
  exact hrest.fold (.eof size)

end Streams

end Feed

/-! ## A cursor on a feed -/

/-- A cursor with no tokens behind it shows the end of its source. -/
lemma Cursor.Facing.current_eq {size : Nat} {c : Cursor} (hc : c.Facing size)
    (hraw : c.raw = []) : c.current = .eof size := by
  rw [Cursor.Facing, hraw] at hc
  exact (hc.eq_nil hc.kind_eq).1

/-- A cursor on a source whose tokens are cut when they are due. -/
structure Puller where
  /-- The token shown. -/
  current : Token
  /-- Where the tokens behind it come from. -/
  feed : Feed
  /-- Byte offset behind the token shown before. -/
  prevEnd : Nat
deriving DecidableEq, Repr

namespace Puller

/-- Take the token shown and show the next one.  If that one is illegal, it is gone, and the token
shown stays. -/
def bump : Attempt Puller Error Token := fun p =>
  match p.feed.next with
  | (.ok token, feed) => (.ok p.current, ⟨token, feed, p.current.span.stop⟩)
  | (.error error, feed) => (.error error, ⟨p.current, feed, p.current.span.stop⟩)

/-- The puller that shows the first token of `source`, unless it is illegal. -/
def ofSource (source : String) : Except Error Puller :=
  match Feed.next ⟨Lexer.ofSource source, none⟩ with
  | (.ok token, feed) => .ok ⟨token, feed, 0⟩
  | (.error error, _) => .error error

/-- The puller and the cursor show the same token, and the same tokens are to come. -/
structure Follows (size : Nat) (p : Puller) (c : Cursor) : Prop where
  current : p.current = c.current
  prevEnd : p.prevEnd = c.prevEnd
  streams : p.feed.Streams size c.raw

section

variable {size : Nat} {p : Puller} {c : Cursor} {token : Token} {e : Error} {feed : Feed}

lemma bump_of_ok (h : p.feed.next = (.ok token, feed)) :
    p.bump = (.ok p.current, ⟨token, feed, p.current.span.stop⟩) := by
  simp only [bump, h]

lemma bump_of_error (h : p.feed.next = (.error e, feed)) :
    p.bump = (.error e, ⟨p.current, feed, p.current.span.stop⟩) := by
  simp only [bump, h]

/-- **If a puller follows a cursor, then `bump` does the same to both**, and they follow each other
again, also after a failure. -/
lemma Follows.bump (h : Follows size p c) (hc : c.Facing size) :
    ∃ q, p.bump = ((Parse.bump c).1, q) ∧ Follows size q (Parse.bump c).2 := by
  have hstreams := h.streams
  cases hraw : c.raw with
  | nil =>
      -- the end of the source is pulled again, and it is what was shown
      have hcurrent : c.current = .eof size := hc.current_eq hraw
      rw [hraw] at hstreams
      obtain ⟨rest, hnext, hrest⟩ := hstreams.next_nil
      rw [Parse.bump_of_nil hraw, ← h.current]
      exact ⟨_, bump_of_ok hnext, (h.current.trans hcurrent).symm, rfl, hraw ▸ hrest⟩
  | cons first raw =>
      rw [hraw] at hstreams
      obtain ⟨rest, hnext, hrest⟩ := hstreams.next_cons
      cases hfold : fold first raw with
      | mk outcome later =>
          rw [hfold] at hnext hrest
          cases outcome with
          | ok token =>
              rw [Parse.bump_of_ok hraw hfold, ← h.current]
              exact ⟨_, bump_of_ok hnext, rfl, rfl, hrest⟩
          | error e =>
              rw [Parse.bump_of_error hraw hfold, ← h.current]
              exact ⟨_, bump_of_error hnext, rfl, rfl, hrest⟩

end

/-- A puller that shows a gap in front of a source, where none is. -/
def before (source : String) : Puller := ⟨⟨.gap, "", ⟨0, 0⟩⟩, ⟨Lexer.ofSource source, none⟩, 0⟩

lemma follows_before (source : String) :
    Follows source.utf8ByteSize (before source) (Cursor.before source) :=
  ⟨rfl, rfl, Feed.streams_ofSource source⟩

end Puller

/-! ## What is shown -/

/-- The state behind `step`, if that succeeds. -/
def onward {σ : Type} (step : Attempt σ Error Token) (s : σ) : Except Error σ :=
  (step s).1.map fun _ => (step s).2

lemma Cursor.ofSource_eq_onward (source : String) :
    Cursor.ofSource source = onward Parse.bump (Cursor.before source) := by
  cases h : Cursor.ofSource source with
  | ok c =>
      obtain ⟨t, hbump⟩ := (Cursor.bump_before source).1 c h
      rw [onward, hbump]
      rfl
  | error e =>
      obtain ⟨d, hbump⟩ := (Cursor.bump_before source).2 e h
      rw [onward, hbump]
      rfl

lemma Puller.ofSource_eq_onward (source : String) :
    Puller.ofSource source = onward Puller.bump (Puller.before source) := by
  rw [onward]
  cases h : Feed.next ⟨Lexer.ofSource source, none⟩ with
  | mk outcome feed =>
      cases outcome with
      | ok token =>
          rw [Puller.bump_of_ok (p := Puller.before source) h]
          simp only [Puller.ofSource, h]
          rfl
      | error e =>
          rw [Puller.bump_of_error (p := Puller.before source) h]
          simp only [Puller.ofSource, h]
          rfl

/-- The tokens that `look` finds in a state and behind up to `count` steps from it, and the error
that ends them. -/
def shown {σ : Type} (look : σ → Token) (step : Attempt σ Error Token) :
    Nat → Except Error σ → List Token × Option Error
  | _, .error error => ([], some error)
  | 0, .ok s => ([look s], none)
  | count + 1, .ok s =>
    let later := shown look step count (onward step s)
    (look s :: later.1, later.2)

section

variable {σ : Type} {look : σ → Token} {step : Attempt σ Error Token} {s d : σ} {t : Token}
  {e : Error}

lemma shown_of_ok (h : step s = (.ok t, d)) (count : Nat) :
    shown look step (count + 1) (.ok s) =
      (look s :: (shown look step count (.ok d)).1, (shown look step count (.ok d)).2) := by
  rw [shown, onward, h]
  rfl

lemma shown_of_error (h : step s = (.error e, d)) (count : Nat) :
    shown look step (count + 1) (.ok s) = ([look s], some e) := by
  rw [shown, onward, h]
  cases count <;> rfl

end

lemma Puller.Follows.shown {size : Nat} {p : Puller} {c : Cursor} (h : Follows size p c)
    (hc : c.Facing size) (count : Nat) :
    shown Puller.current Puller.bump count (.ok p) =
      Runic.shown Cursor.current Parse.bump count (.ok c) := by
  induction count generalizing p c with
  | zero => rw [Runic.shown, Runic.shown, h.current]
  | succ count ih =>
      obtain ⟨q, hbump, hq⟩ := h.bump hc
      have hfacing := (Parse.moved_bump hc).facing
      cases hrun : Parse.bump c with
      | mk outcome d =>
          rw [hrun] at hbump hq hfacing
          cases outcome with
          | ok t => rw [shown_of_ok hbump, shown_of_ok hrun, h.current, ih hq hfacing]
          | error e => rw [shown_of_error hbump, shown_of_error hrun, h.current]

/-- The first `count` of the tokens `ts`, with the end of a source of `size` bytes behind them as
often as it takes. -/
def padded (size : Nat) (ts : List Token) (count : Nat) : List Token :=
  (List.range count).map fun i => ts.getD i (.eof size)

lemma padded_cons (size : Nat) (t : Token) (ts : List Token) (count : Nat) :
    padded size (t :: ts) (count + 1) = t :: padded size ts count := by
  rw [padded, List.range_succ_eq_map, List.map_cons, List.map_map]
  rfl

lemma padded_nil (size count : Nat) :
    padded size [] (count + 1) = .eof size :: padded size [] count := by
  rw [padded, List.range_succ_eq_map, List.map_cons, List.map_map]
  rfl

/-- The tokens in front of the first illegal one, and the error about that. -/
def untilIllegal (ts : List Token) : List Token × Option Error :=
  (ts.takeWhile (·.kind ≠ .illegal), (firstIllegal? ts).map fun t => .illegal t.span t.text)

lemma untilIllegal_legal {t : Token} (h : t.kind ≠ .illegal) (ts : List Token) :
    untilIllegal (t :: ts) = (t :: (untilIllegal ts).1, (untilIllegal ts).2) := by
  rw [untilIllegal, firstIllegal_cons h, List.takeWhile_cons_of_pos (by simp [h])]
  rfl

lemma untilIllegal_illegal {t : Token} (h : t.kind = .illegal) (ts : List Token) :
    untilIllegal (t :: ts) = ([], some (.illegal t.span t.text)) := by
  simp [untilIllegal, firstIllegal?, h]

/-- **The tokens that a cursor shows one after the other are its folded tokens**, up to the first
illegal one. -/
lemma shown_bump {size : Nat} {c : Cursor} (hc : c.Facing size) (count : Nat) :
    shown Cursor.current Parse.bump count (.ok c) =
      (c.current :: (untilIllegal (padded size (folded c.raw) count)).1,
        (untilIllegal (padded size (folded c.raw) count)).2) := by
  induction count generalizing c with
  | zero => rfl
  | succ count ih =>
      have hfacing := (Parse.moved_bump hc).facing
      cases hraw : c.raw with
      | nil =>
          have hbump := Parse.bump_of_nil hraw
          have hend : (Token.eof size).kind ≠ .illegal := by simp [Token.eof]
          rw [hbump] at hfacing
          rw [shown_of_ok hbump, ih hfacing, hraw, folded, padded_nil, untilIllegal_legal hend,
            hc.current_eq hraw]
      | cons first raw =>
          have hstep : ∀ token rest, fold first raw = (.ok token, rest) → token.kind ≠ .illegal →
              shown Cursor.current Parse.bump (count + 1) (.ok c) =
                (c.current ::
                    (untilIllegal (padded size (folded (first :: raw)) (count + 1))).1,
                  (untilIllegal (padded size (folded (first :: raw)) (count + 1))).2) := by
            intro token rest hfold hlegal
            have hbump := Parse.bump_of_ok hraw hfold
            rw [hbump] at hfacing
            rw [shown_of_ok hbump, ih hfacing, folded_of_fold hfold, padded_cons,
              untilIllegal_legal hlegal]
          rcases fold_cases first raw with ⟨hk, hfold⟩ | ⟨-, token, htoken, hfold⟩ | ⟨hk, hfold⟩
          · have hlayout : first.kind.isLayout ≠ true := by simp [hk, Kind.isLayout]
            rw [shown_of_error (Parse.bump_of_error hraw hfold), folded, if_neg hlayout,
              padded_cons, untilIllegal_illegal hk]
          · refine hstep token _ hfold ?_
            rintro he
            rw [he] at htoken
            cases htoken
          · exact hstep first raw hfold hk

/-- What is shown behind the first step: the step that shows the first token of a source is one
more. -/
lemma shown_onward {σ : Type} {look : σ → Token} {step : Attempt σ Error Token} {s : σ}
    {count : Nat} {t : Token} {ts : List Token} {failure : Option Error}
    (h : shown look step (count + 1) (.ok s) = (t :: ts, failure)) :
    shown look step count (onward step s) = (ts, failure) := by
  obtain ⟨hshown, hfailure⟩ := Prod.mk.inj h
  exact Prod.ext (List.cons.inj hshown).2 hfailure

lemma shown_ofSource (source : String) (count : Nat) :
    shown Cursor.current Parse.bump count (Cursor.ofSource source) =
      untilIllegal (padded source.utf8ByteSize (folded (lex source)) (count + 1)) := by
  rw [Cursor.ofSource_eq_onward]
  exact shown_onward (shown_bump (Cursor.facing_before source) (count + 1))

lemma shown_puller_ofSource (source : String) (count : Nat) :
    shown Puller.current Puller.bump count (Puller.ofSource source) =
      untilIllegal (padded source.utf8ByteSize (folded (lex source)) (count + 1)) := by
  have hfacing := Cursor.facing_before source
  rw [Puller.ofSource_eq_onward]
  exact shown_onward (((Puller.follows_before source).shown hfacing (count + 1)).trans
    (shown_bump hfacing (count + 1)))

/-! ## Complaints about illegal tokens -/

namespace Parse

variable {size : Nat} {c : Cursor}

lemma coincide_skipSeparator (hc : c.Facing size) :
    Coincide size 0 skipSeparator skipSeparator c := by
  have htake : Coincide size c.due (bump >>= fun _ => pure ()) (bump >>= fun _ => pure ()) c :=
    .bump hc fun _ hd _ => .pure hd
  exact .peek (.ite (fun _ => htake.weaken) fun _ => .pure hc)

lemma moved_whole (hc : c.Facing size) : Moved size 0 c (whole c) := by
  have hwhole : Coincide size 0 whole whole c := by
    refine (coincide_skipSeparator hc).bind fun _ d _ hd _ => ?_
    have hexpression : Coincide size d.due expression expression d :=
      ⟨rfl, Cursor.moved_expression hd⟩
    refine hexpression.weaken.bind fun node e _ he _ => ?_
    refine (coincide_skipSeparator he).bind fun _ f _ hf _ => ?_
    exact .peek (.ite (fun _ => .pure hf) fun _ => .failAt hf)
  exact hwhole.moved

end Parse

/-- If `parse` fails for an illegal token, it is the first one of the source. -/
lemma firstIllegal_of_parse {source text : String} {span : Span}
    (h : parse source = .error (.illegal span text)) :
    (lex source).find? (·.kind = .illegal) = some ⟨.illegal, text, span⟩ := by
  have hfirst := Parse.moved_bump (Cursor.facing_before source)
  have hfind : ∃ t, firstIllegal? (lex source) = some t ∧ t.span = span ∧ t.text = text := by
    rw [parse] at h
    cases hsource : Cursor.ofSource source with
    | ok c =>
        obtain ⟨t, hbump⟩ := (Cursor.bump_before source).1 c hsource
        rw [hsource] at h
        rw [hbump] at hfirst
        obtain ⟨u, hu, hplace⟩ := (Parse.moved_whole hfirst.facing).error span text h
        exact ⟨u, (hfirst.ok t rfl).symm.trans hu, hplace⟩
    | error e =>
        obtain ⟨d, hbump⟩ := (Cursor.bump_before source).2 e hsource
        rw [hsource] at h
        rw [hbump] at hfirst
        cases h
        exact hfirst.error span text rfl
  obtain ⟨⟨kind, _, _⟩, ht, rfl, rfl⟩ := hfind
  have hkind : kind = .illegal := by simpa using List.find?_some ht
  rw [hkind] at ht
  exact ht

/-- **Folding on demand is folding all at once.**  Let every longest run of layout among the tokens
of a source be replaced by one separator, and let the end of the source be repeated behind them.
These are the tokens that a cursor shows one after the other, whether it has all tokens of the
source at hand or pulls them from a lexer, up to the first illegal one, and the step that would show
that one fails with its place and its text.  So a source that is read has no illegal token, and if
reading complains about one, it is the first. -/
theorem folding_on_demand (source : String) :
    (∀ count,
      let tokens := padded source.utf8ByteSize (foldedRuns (lex source)) (count + 1)
      shown Cursor.current Parse.bump count (Cursor.ofSource source) = untilIllegal tokens ∧
        shown Puller.current Puller.bump count (Puller.ofSource source) = untilIllegal tokens) ∧
      (∀ n, parse source = .ok n → ∀ t ∈ lex source, t.kind ≠ .illegal) ∧
      ∀ span text, parse source = .error (.illegal span text) →
        (lex source).find? (·.kind = .illegal) = some ⟨.illegal, text, span⟩ := by
  have hruns : foldedRuns (lex source) = folded (lex source) :=
    foldedRuns_of_tiles (tiles_lexFrom 0 source.toList)
  refine ⟨fun count => ?_, fun n h => legal_of_expr (expr_of_parse h),
    fun span text h => firstIllegal_of_parse h⟩
  rw [hruns]
  exact ⟨shown_ofSource source count, shown_puller_ofSource source count⟩

/-- A space and a comment in front of an illegal character, and another one behind it: the
separator is shown, and then the first of the two is refused. -/
theorem folding_on_demand_tab :
    shown Puller.current Puller.bump 9 (Puller.ofSource "a :: b\n\tc\r") =
        ([⟨.face, "a", ⟨0, 1⟩⟩, ⟨.gap, " ", ⟨1, 7⟩⟩], some (.illegal ⟨7, 8⟩ "\t")) ∧
      parse "a :: b\n\tc\r" = .error (.illegal ⟨7, 8⟩ "\t") ∧
      (lex "a :: b\n\tc\r").find? (·.kind = .illegal) = some ⟨.illegal, "\t", ⟨7, 8⟩⟩ := by
  have hparse : parse "a :: b\n\tc\r" = .error (.illegal ⟨7, 8⟩ "\t") := by decide +kernel
  obtain ⟨hshown, -, hfirst⟩ := folding_on_demand "a :: b\n\tc\r"
  exact ⟨(hshown 9).2.trans (by decide +kernel), hparse, hfirst _ _ hparse⟩

end Runic
