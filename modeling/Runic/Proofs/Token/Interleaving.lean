import Mathlib.Data.List.ReduceOption
import Runic.Proofs.Token.Tiling

/-!
# Two ways to ask a lexer for tokens

A lexer can be asked for the next token, and at the end of the source it gives that end again and
again.  Or it can be asked as an iterator, which gives the end once and then nothing.  The two share
the place in the source, but only the iterator remembers that it gave the end.

* `Lexer.answers` — what a lexer answers to any sequence of the two questions.
* `Lexer.upcoming_succ` — one token is given, and the others move up.
* `lexer_answers` — **whatever the questions, the tokens come in order, and the iterator falls
  silent only for what it said itself.**
-/

namespace Runic

namespace Lexer

/-- A question to a lexer: `Lexer.next?` or `Lexer.nextToken`. -/
inductive Query where
  /-- As to an iterator. -/
  | next
  /-- For a token in any case. -/
  | nextToken
deriving DecidableEq, Repr

/-- The answer to a question, and the lexer behind it. -/
def answer (lexer : Lexer) : Query → Option Token × Lexer
  | .next => lexer.next?
  | .nextToken => (some lexer.nextToken.1, lexer.nextToken.2)

/-- The answers to `queries`, each put to the lexer that the one before it left. -/
def answers (lexer : Lexer) : List Query → List (Option Token)
  | [] => []
  | query :: queries => (lexer.answer query).1 :: (lexer.answer query).2.answers queries

lemma length_answers (lexer : Lexer) (queries : List Query) :
    (lexer.answers queries).length = queries.length := by
  induction queries generalizing lexer with
  | nil => rfl
  | cons query queries ih => rw [answers, List.length_cons, ih, List.length_cons]

/-! ## Tokens in order -/

/-- The token number `i` that `nextToken` gives, if it is asked again and again.  Behind the last
token this is the end of the source. -/
def upcoming (lexer : Lexer) (i : Nat) : Token :=
  (lexFrom lexer.offset lexer.rest).getD i (.eof (lexer.offset + byteLength lexer.rest))

lemma upcoming_zero (lexer : Lexer) : lexer.upcoming 0 = lexer.nextToken.1 := by
  obtain ⟨offset, rest, finished⟩ := lexer
  cases rest with
  | nil => rw [upcoming, lexFrom]; rfl
  | cons c cs => rw [upcoming, lexFrom]; rfl

/-- Behind one `nextToken`, the upcoming tokens are those from number one on. -/
lemma upcoming_succ (lexer : Lexer) (i : Nat) :
    lexer.upcoming (i + 1) = lexer.nextToken.2.upcoming i := by
  obtain ⟨offset, rest, finished⟩ := lexer
  cases rest with
  | nil =>
      have hnext : nextToken ⟨offset, [], finished⟩ = (.eof offset, ⟨offset, [], finished⟩) := rfl
      rw [hnext, upcoming, upcoming, lexFrom]
      cases i <;> rfl
  | cons c cs =>
      have hbytes : byteLength (scan (c :: cs)).text + byteLength (scan (c :: cs)).rest =
          byteLength (c :: cs) := by
        rw [← byteLength_append, scan_append]
      rw [upcoming, lexFrom, List.getD_cons_succ, ← hbytes, ← Nat.add_assoc]
      rfl

/-- Whatever the queries are, the tokens among the answers are the upcoming ones, in order and
without a hole. -/
lemma reduceOption_answers (lexer : Lexer) (queries : List Query) :
    (lexer.answers queries).reduceOption =
      (List.range (lexer.answers queries).reduceOption.length).map lexer.upcoming := by
  induction queries generalizing lexer with
  | nil => rfl
  | cons query queries ih =>
      have hgiven : ∀ next : Lexer, next.offset = lexer.nextToken.2.offset →
          next.rest = lexer.nextToken.2.rest →
          lexer.nextToken.1 :: (next.answers queries).reduceOption =
            (List.range (lexer.nextToken.1 :: (next.answers queries).reduceOption).length).map
              lexer.upcoming := by
        intro next hoffset hrest
        have hnext : next.upcoming = fun i => lexer.upcoming (i + 1) := by
          funext i
          rw [upcoming_succ, upcoming, upcoming, hoffset, hrest]
        rw [List.length_cons, List.range_succ_eq_map, List.map_cons, List.map_map, upcoming_zero,
          List.cons_inj_right]
        have htokens := ih next
        rwa [hnext] at htokens
      cases query with
      | nextToken => exact hgiven _ rfl rfl
      | next =>
          by_cases hfinished : lexer.finished = true
          · have hanswer : lexer.answer .next = (none, lexer) := by simp [answer, next?, hfinished]
            rw [answers, hanswer]
            exact ih lexer
          · have hanswer : lexer.answer .next = (some lexer.nextToken.1,
                { lexer.nextToken.2 with finished := lexer.nextToken.1.kind = .eof }) := by
              simp [answer, next?, hfinished]
            rw [answers, hanswer]
            exact hgiven _ rfl rfl

/-! ## Silence -/

/-- An answer is nothing exactly if the question is `next` and the end was given out before: at the
start, or as the answer to an earlier `next`. -/
lemma answers_eq_none_iff (lexer : Lexer) (queries : List Query) (i : Nat) :
    (lexer.answers queries)[i]? = some none ↔ queries[i]? = some .next ∧
      (lexer.finished = true ∨ ∃ j < i, queries[j]? = some .next ∧
        ∃ t, (lexer.answers queries)[j]? = some (some t) ∧ t.kind = .eof) := by
  induction queries generalizing lexer i with
  | nil => simp [answers]
  | cons query queries ih =>
      cases i with
      | zero =>
          cases query with
          | nextToken => simp [answers, answer]
          | next => by_cases h : lexer.finished = true <;> simp [answers, answer, next?, h]
      | succ i =>
          have hquery : ((lexer.answer query).2.finished = true ↔ lexer.finished = true ∨
              query = .next ∧ ∃ t, (lexer.answer query).1 = some t ∧ t.kind = .eof) := by
            cases query with
            | nextToken => simp [answer, nextToken]
            | next => by_cases h : lexer.finished = true <;> simp [answer, next?, h]
          simp only [answers, List.getElem?_cons_succ, ih, hquery]
          refine and_congr_right fun _ => ?_
          constructor
          · rintro ((h | ⟨rfl, t, ht, hkind⟩) | ⟨j, hj, hnext, ht⟩)
            · exact .inl h
            · exact .inr ⟨0, by omega, rfl, t, by simpa using ht, hkind⟩
            · exact .inr ⟨j + 1, by omega, hnext, ht⟩
          · rintro (h | ⟨j, hj, hnext, t, ht, hkind⟩)
            · exact .inl (.inl h)
            · cases j with
              | zero =>
                  refine .inl (.inr ⟨?_, t, ?_, hkind⟩)
                  · simpa using hnext
                  · simpa using ht
              | succ j => exact .inr ⟨j, by omega, hnext, t, ht, hkind⟩

end Lexer

/-- **Whatever is asked of a lexer, in whatever order, the tokens that it gives are those of the
source, and behind them the last one, which is the end, again and again.**  There is an answer to
each question, and the answer is nothing exactly if the question is one to the iterator and the
answer to an earlier question to the iterator was the end. -/
theorem lexer_answers (source : String) (queries : List Lexer.Query) :
    let answers := (Lexer.ofSource source).answers queries
    (∃ ts, lex source = ts ++ [.eof source.utf8ByteSize] ∧ ∀ t ∈ ts, t.kind ≠ .eof) ∧
      answers.length = queries.length ∧
      answers.reduceOption = (List.range answers.reduceOption.length).map
        (fun i => (lex source).getD i (.eof source.utf8ByteSize)) ∧
      ∀ i : Nat, answers[i]? = some none ↔ queries[i]? = some .next ∧
        ∃ j < i, queries[j]? = some .next ∧ ∃ t, answers[j]? = some (some t) ∧ t.kind = .eof := by
  intro answers
  refine ⟨lex_eq source, Lexer.length_answers _ queries, ?_, fun i => ?_⟩
  · have hupcoming : (Lexer.ofSource source).upcoming = fun i =>
        (lex source).getD i (.eof source.utf8ByteSize) := by
      funext i
      rw [Lexer.upcoming, Lexer.ofSource, Nat.zero_add, byteLength_toList]
      rfl
    rw [← hupcoming]
    exact (Lexer.ofSource source).reduceOption_answers queries
  · have hsilent := (Lexer.ofSource source).answers_eq_none_iff queries i
    have hfresh : (Lexer.ofSource source).finished = false := rfl
    simpa [hfresh] using hsilent

end Runic
