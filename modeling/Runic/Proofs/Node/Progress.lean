import Runic.Proofs.Node.Abreast
import Runic.Proofs.Node.Calls
import Runic.Proofs.Node.Parsing
import Runic.Proofs.Token.Tiling

/-!
# Reading makes progress

Whatever a reader does, it moves along the tokens of its source and never back, and it takes one
before it makes the same call again.  So it comes to an end, from every cursor that reading leaves
behind, whether it failed there or not.

* `Cursor.Facing` — where a cursor on a source can stand.
* `Parse.Moved` — what reading may do to a cursor, failing or not.
* `Parse.Coincide` — two readers do the same from a cursor, and move it so.
* `Parse.Call.settled_nested` — **calls that are nested deeply enough do not depend on how the calls
  beyond that are answered**: none is made.
* `reading_progresses` — reading one expression after the other from a source.
-/

namespace Runic

/-! ## Tokens in front of the end -/

/-- The last of the tokens and no other is the end of a source of `size` bytes. -/
def EndsOnce (size : Nat) (ts : List Token) : Prop :=
  ∃ front, ts = front ++ [.eof size] ∧ ∀ t ∈ front, t.kind ≠ .eof

namespace EndsOnce

variable {size : Nat} {t : Token} {ts : List Token}

lemma ne_nil (h : EndsOnce size ts) : ts ≠ [] := by
  obtain ⟨front, rfl, -⟩ := h
  simp

lemma cons (ht : t.kind ≠ .eof) (h : EndsOnce size ts) : EndsOnce size (t :: ts) := by
  obtain ⟨front, rfl, hfront⟩ := h
  exact ⟨t :: front, rfl, List.forall_mem_cons.2 ⟨ht, hfront⟩⟩

lemma tail (h : EndsOnce size (t :: ts)) (ht : t.kind ≠ .eof) : EndsOnce size ts := by
  obtain ⟨front, hts, hfront⟩ := h
  cases front with
  | nil =>
      cases hts
      exact absurd rfl ht
  | cons u front =>
      cases hts
      exact ⟨front, rfl, (List.forall_mem_cons.1 hfront).2⟩

lemma eq_nil (h : EndsOnce size (t :: ts)) (ht : t.kind = .eof) : t = .eof size ∧ ts = [] := by
  obtain ⟨front, hts, hfront⟩ := h
  cases front with
  | nil =>
      cases hts
      exact ⟨rfl, rfl⟩
  | cons u front =>
      cases hts
      exact absurd ht (List.forall_mem_cons.1 hfront).1

lemma kind_eq (h : EndsOnce size [t]) : t.kind = .eof := by
  by_contra ht
  exact (h.tail ht).ne_nil rfl

lemma dropWhile_layout (h : EndsOnce size ts) :
    EndsOnce size (ts.dropWhile (·.kind.isLayout)) := by
  obtain ⟨front, rfl, hfront⟩ := h
  refine ⟨front.dropWhile (·.kind.isLayout), ?_, ?_⟩
  · rw [List.dropWhile_append]
    split
    · next hnil =>
        rw [List.isEmpty_iff.1 hnil]
        rfl
    · rfl
  · exact fun t ht => hfront t ((List.dropWhile_suffix _).mem ht)

end EndsOnce

/-- The first illegal one of the tokens. -/
def firstIllegal? (ts : List Token) : Option Token := ts.find? (·.kind = .illegal)

lemma firstIllegal_cons {t : Token} (ht : t.kind ≠ .illegal) (ts : List Token) :
    firstIllegal? (t :: ts) = firstIllegal? ts := by
  simp [firstIllegal?, ht]

lemma illegal_ne {t : Token} (h : t.kind.isLayout = true) : t.kind ≠ .illegal := by
  intro hk
  rw [hk] at h
  cases h

/-- Dropping layout in front does not change the first illegal token. -/
lemma firstIllegal_dropWhile (ts : List Token) :
    firstIllegal? (ts.dropWhile (·.kind.isLayout)) = firstIllegal? ts := by
  induction ts with
  | nil => rfl
  | cons t ts ih =>
      by_cases ht : t.kind.isLayout = true
      · rw [List.dropWhile_cons, if_pos ht, firstIllegal_cons (illegal_ne ht), ih]
      · rw [List.dropWhile_cons, if_neg ht]

/-- The cases of `fold`: an illegal token is refused, layout becomes a separator together with the
layout behind it, and all else is shown as it is. -/
lemma fold_cases (first : Token) (raw : List Token) :
    (first.kind = .illegal ∧ fold first raw = (.error (.illegal first.span first.text), raw)) ∨
      (first.kind.isLayout = true ∧ ∃ token, token.kind.isSeparator = true ∧
        fold first raw = (.ok token, raw.dropWhile (·.kind.isLayout))) ∨
      (first.kind ≠ .illegal ∧ fold first raw = (.ok first, raw)) := by
  have hlayout : ∀ p [Decidable p], first.kind.isLayout = true →
      (if p ∧ first.kind ≠ .comment then first.kind else Kind.gap).isSeparator = true :=
    fun p _ h => isSeparator_of_isLayout h p
  unfold fold
  split
  · next hk => exact .inl ⟨hk, rfl⟩
  · next hk => exact .inr (.inl ⟨by rw [hk]; rfl, _, hlayout _ (by rw [hk]; rfl), rfl⟩)
  · next hk => exact .inr (.inl ⟨by rw [hk]; rfl, _, hlayout _ (by rw [hk]; rfl), rfl⟩)
  · next hk => exact .inr (.inl ⟨by rw [hk]; rfl, _, hlayout _ (by rw [hk]; rfl), rfl⟩)
  · next hk _ _ _ => exact .inr (.inr ⟨hk, rfl⟩)

/-! ## Moving along the tokens -/

/-- The tokens of the cursor end once, at the end of a source of `size` bytes. -/
def Cursor.Facing (size : Nat) (c : Cursor) : Prop := EndsOnce size (c.current :: c.raw)

/-- The number of tokens that `bump` is sure to take off those behind the cursor: none if it shows
the end. -/
def Cursor.due (c : Cursor) : Nat := if c.current.kind = .eof then 0 else 1

namespace Parse

variable {α β : Type} {size least : Nat}

/-- What a reader does to a cursor: it moves along the tokens, past `least` of them at least.  If
it succeeds, it has not passed an illegal one, and if it fails on an illegal one, that was the
first. -/
structure Moved (size least : Nat) (c : Cursor) (run : Except Error α × Cursor) : Prop where
  facing : run.2.Facing size
  suffix : run.2.raw <:+ c.raw
  length : run.2.raw.length + least ≤ c.raw.length
  ok : ∀ a, run.1 = .ok a → firstIllegal? run.2.raw = firstIllegal? c.raw
  error : ∀ span text, run.1 = .error (.illegal span text) →
    ∃ t, firstIllegal? c.raw = some t ∧ t.span = span ∧ t.text = text

section

variable {c : Cursor} {first token : Token} {raw rest : List Token} {e : Error}

lemma bump_of_nil (hraw : c.raw = []) :
    bump c = (.ok c.current, { c with prevEnd := c.current.span.stop }) := by
  simp only [bump, peek, fetch, Attempt.bind_apply, Attempt.modify_apply, hraw]
  rfl

lemma bump_of_ok (hraw : c.raw = first :: raw) (hfold : fold first raw = (.ok token, rest)) :
    bump c = (.ok c.current, ⟨token, rest, c.current.span.stop⟩) := by
  simp only [bump, peek, fetch, Attempt.bind_apply, Attempt.modify_apply, hraw, hfold]
  rfl

lemma bump_of_error (hraw : c.raw = first :: raw) (hfold : fold first raw = (.error e, rest)) :
    bump c = (.error e, ⟨c.current, rest, c.current.span.stop⟩) := by
  simp only [bump, peek, fetch, Attempt.bind_apply, Attempt.modify_apply, hraw, hfold]

end

lemma eq_current_of_bump {c d : Cursor} {t : Token} (h : bump c = (.ok t, d)) : t = c.current := by
  obtain ⟨_, _, hpeek, hrest⟩ := Attempt.bind_eq_ok.1 h
  obtain ⟨_, _, -, hfetch⟩ := Attempt.bind_eq_ok.1 hrest
  obtain ⟨_, _, -, hreturn⟩ := Attempt.bind_eq_ok.1 hfetch
  cases hpeek
  cases hreturn
  rfl

/-- **The reader `bump` moves the cursor**, by one token at least unless it shows the end. -/
lemma moved_bump {c : Cursor} (hc : c.Facing size) : Moved size c.due c (bump c) := by
  by_cases hkind : c.current.kind = .eof
  · have hraw : c.raw = [] := (hc.eq_nil hkind).2
    rw [bump_of_nil hraw, Cursor.due, if_pos hkind]
    exact ⟨hc, List.suffix_refl _, Nat.le_refl _, fun _ _ => rfl, by simp⟩
  · have hbehind : EndsOnce size c.raw := hc.tail hkind
    obtain ⟨first, raw, hraw⟩ := List.exists_cons_of_ne_nil hbehind.ne_nil
    rw [hraw] at hbehind
    rw [Cursor.due, if_neg hkind]
    rcases fold_cases first raw with ⟨hk, hfold⟩ | ⟨hk, token, htoken, hfold⟩ | ⟨hk, hfold⟩
    · rw [bump_of_error hraw hfold]
      refine ⟨(hbehind.tail (by simp [hk])).cons hkind, ?_, ?_, by simp, ?_⟩
      · exact hraw ▸ List.suffix_cons first raw
      · rw [hraw, List.length_cons]
      · rintro _ _ ⟨⟩
        exact ⟨first, by simp [firstIllegal?, hraw, hk], rfl, rfl⟩
    · have hfirst : first.kind ≠ .eof := by rintro he; rw [he] at hk; cases hk
      have htoken : token.kind ≠ .eof := by rintro he; rw [he] at htoken; cases htoken
      have hsuffix : raw.dropWhile (·.kind.isLayout) <:+ raw := List.dropWhile_suffix _
      rw [bump_of_ok hraw hfold]
      refine ⟨(hbehind.tail hfirst).dropWhile_layout.cons htoken, ?_, ?_, fun _ _ => ?_, by simp⟩
      · exact hraw ▸ hsuffix.trans (List.suffix_cons first raw)
      · rw [hraw, List.length_cons]
        exact Nat.succ_le_succ hsuffix.length_le
      · rw [hraw, firstIllegal_cons (illegal_ne hk), firstIllegal_dropWhile]
    · rw [bump_of_ok hraw hfold]
      refine ⟨hbehind, ?_, ?_, fun _ _ => ?_, by simp⟩
      · exact hraw ▸ List.suffix_cons first raw
      · rw [hraw, List.length_cons]
      · rw [hraw, firstIllegal_cons hk]

/-! ## Two readers at once -/

/-- From the cursor `c`, the readers `p` and `q` do the same, and what they do moves it. -/
structure Coincide (size least : Nat) (p q : Parse α) (c : Cursor) : Prop where
  same : p c = q c
  moved : Moved size least c (q c)

namespace Coincide

variable {p q : Parse α} {f g : α → Parse β} {c : Cursor}

lemma weaken (h : Coincide size least p q c) : Coincide size 0 p q c where
  same := h.same
  moved := { h.moved with length := (Nat.le_add_right _ _).trans h.moved.length }

lemma pure {a : α} (hc : c.Facing size) : Coincide size 0 (Pure.pure a) (Pure.pure a) c where
  same := rfl
  moved := ⟨hc, List.suffix_refl _, Nat.le_refl _, fun _ _ => rfl, by simp⟩

lemma fail {e : Error} (he : ∀ span text, e ≠ .illegal span text) (hc : c.Facing size) :
    Coincide size 0 (Attempt.fail e : Parse α) (Attempt.fail e) c where
  same := rfl
  moved := by
    refine ⟨hc, List.suffix_refl _, Nat.le_refl _, by rintro _ ⟨⟩, ?_⟩
    rintro span text ⟨⟩
    exact absurd rfl (he span text)

lemma failAt {span : Span} {fault : ParseFault} (hc : c.Facing size) :
    Coincide size 0 (Parse.fail span fault : Parse α) (Parse.fail span fault) c :=
  .fail (by simp) hc

/-- Two sequences coincide if their first parts do, and their second parts from where the first ones
led. -/
lemma bind (hp : Coincide size least p q c) (hf : ∀ a d, q c = (.ok a, d) → d.Facing size →
      d.raw.length + least ≤ c.raw.length → Coincide size 0 (f a) (g a) d) :
    Coincide size least (p >>= f) (q >>= g) c := by
  obtain ⟨hsame, hmoved⟩ := hp
  cases hq : q c with
  | mk outcome d =>
      rw [hq] at hsame hmoved
      cases outcome with
      | ok a =>
          obtain ⟨hsame', hmoved'⟩ := hf a d hq hmoved.facing hmoved.length
          have hrun : (q >>= g) c = g a d := by rw [Attempt.bind_apply, hq]
          refine ⟨?_, ?_⟩
          · rw [hrun, Attempt.bind_apply, hsame]
            exact hsame'
          · rw [hrun]
            refine ⟨hmoved'.facing, hmoved'.suffix.trans hmoved.suffix, ?_, fun b hb => ?_, ?_⟩
            · exact (Nat.add_le_add_right hmoved'.suffix.length_le _).trans hmoved.length
            · rw [hmoved'.ok b hb, hmoved.ok a rfl]
            · rw [← hmoved.ok a rfl]
              exact hmoved'.error
      | error e =>
          have hrun : (q >>= g) c = (.error e, d) := by rw [Attempt.bind_apply, hq]
          refine ⟨?_, ?_⟩
          · rw [hrun, Attempt.bind_apply, hsame]
          · rw [hrun]
            refine ⟨hmoved.facing, hmoved.suffix, hmoved.length, by simp, ?_⟩
            rintro span text ⟨⟩
            exact hmoved.error span text rfl

lemma ite {condition : Prop} [Decidable condition] {p' q' : Parse α}
    (hyes : condition → Coincide size least p q c)
    (hno : ¬ condition → Coincide size least p' q' c) :
    Coincide size least (if condition then p else p') (if condition then q else q') c := by
  split
  · next h => exact hyes h
  · next h => exact hno h

lemma peek {f g : Token → Parse α} (h : Coincide size least (f c.current) (g c.current) c) :
    Coincide size least (Parse.peek >>= f) (Parse.peek >>= g) c :=
  ⟨h.same, h.moved⟩

lemma bump {f g : Token → Parse α} (hc : c.Facing size)
    (h : ∀ d : Cursor, d.Facing size → d.raw.length + c.due ≤ c.raw.length →
      Coincide size 0 (f c.current) (g c.current) d) :
    Coincide size c.due (Parse.bump >>= f) (Parse.bump >>= g) c := by
  have hbump : Coincide size c.due Parse.bump Parse.bump c := ⟨rfl, moved_bump hc⟩
  refine hbump.bind fun t d hrun hd hless => ?_
  rw [eq_current_of_bump hrun]
  exact h d hd hless

/-- Two sequences that start with `bump` on a token other than the end coincide if what follows
does, with fewer tokens left. -/
lemma bumpKind {f g : Token → Parse α} {kind : Kind} (hc : c.Facing size)
    (hk : c.current.kind = kind) (hkind : kind ≠ .eof)
    (h : ∀ d : Cursor, d.Facing size → d.raw.length < c.raw.length →
      Coincide size 0 (f c.current) (g c.current) d) :
    Coincide size 0 (Parse.bump >>= f) (Parse.bump >>= g) c := by
  have hdue : c.due = 1 := if_neg (by rwa [hk])
  refine (bump hc fun d hd hless => h d hd ?_).weaken
  omega

/-- Two readers coincide from a cursor if they equal two others there that do. -/
lemma of_eq {p' q' : Parse α} (h : Coincide size least p' q' c) (hp : p c = p' c)
    (hq : q c = q' c) : Coincide size least p q c where
  same := by rw [hp, hq, h.same]
  moved := hq ▸ h.moved

lemma expect {kind : Kind} {f g : Unit → Parse α} (hc : c.Facing size) (hkind : kind ≠ .eof)
    (h : ∀ d : Cursor, d.Facing size → d.raw.length < c.raw.length →
      Coincide size 0 (f ()) (g ()) d) :
    Coincide size 0 (Parse.expect kind >>= f) (Parse.expect kind >>= g) c := by
  have hboth : Coincide size 0
      (if c.current.kind = kind then Parse.bump >>= fun _ => f ()
        else Parse.fail c.current.span (.expected kind c.current))
      (if c.current.kind = kind then Parse.bump >>= fun _ => g ()
        else Parse.fail c.current.span (.expected kind c.current)) c :=
    ite (fun hk => bumpKind hc hk hkind h) fun _ => failAt hc
  exact hboth.of_eq (take_bind c) (take_bind c)

lemma expectGap {f g : Unit → Parse α} (hc : c.Facing size)
    (h : ∀ d : Cursor, d.Facing size → d.raw.length < c.raw.length →
      Coincide size 0 (f ()) (g ()) d) :
    Coincide size 0 (Parse.expectGap >>= f) (Parse.expectGap >>= g) c := by
  have hboth : Coincide size 0
      (if c.current.kind = .ace then Parse.fail c.current.span .aceForGap
        else Parse.expect .gap >>= f)
      (if c.current.kind = .ace then Parse.fail c.current.span .aceForGap
        else Parse.expect .gap >>= g) c :=
    ite (fun _ => failAt hc) fun _ => expect hc (by simp) h
  have hrun : ∀ k : Unit → Parse α, (Parse.expectGap >>= k) c =
      (if c.current.kind = .ace then Parse.fail c.current.span .aceForGap
        else Parse.expect .gap >>= k) c := by
    intro k
    rw [Parse.expectGap, bind_assoc, Attempt.bind_apply]
    simp only [Parse.peek]
    split <;> rfl
  exact hboth.of_eq (hrun f) (hrun g)

end Coincide

lemma coincide_spanFrom {c : Cursor} (hc : c.Facing size) (start : Nat) :
    Coincide size 0 (spanFrom start) (spanFrom start) c :=
  ⟨rfl, hc, List.suffix_refl _, Nat.le_refl _, fun _ _ => rfl, by simp [spanFrom]⟩

lemma coincide_applied {c : Cursor} (hc : c.Facing size) (r : Rune) (args : List Node)
    (start : Nat) : Coincide size 0 (applied r args start) (applied r args start) c :=
  (coincide_spanFrom hc start).bind fun _ _ _ hd _ => .pure hd

/-! ## All readers -/

namespace Call

/-- The number of calls that a reader nests at most before it takes a token. -/
def rank {α : Type} : Call α → Nat
  | operand | chain _ _ | gateCall _ _ | tallFixed _ | tallUntil _ _ _ => 1
  | expr | wide _ _ _ | tall _ _ _ => 2
  | callPairs | cons | wideList | wideFixed _ | widePairs _ | application _ => 3
  | wideJogging _ => 4

/-- The number of tokens that a reader is sure to take from a cursor, whether it succeeds or not. -/
def takes {α : Type} : Call α → Cursor → Nat
  | expr, c | operand, c => c.due
  | _, _ => 0

/-- Two ways to answer calls coincide wherever `depth` suffices for the tokens left and the rank of
the call. -/
def Settled (size depth : Nat) (a b : ∀ {α : Type}, Call α → Parse α) : Prop :=
  ∀ {α : Type} (call : Call α) (c : Cursor), c.Facing size →
    8 * c.raw.length + call.rank ≤ depth → Coincide size (call.takes c) (a call) (b call) c

section

variable {depth : Nat} {a b : ∀ {α : Type}, Call α → Parse α} {c : Cursor}

lemma Settled.call (h : Settled size depth a b) {α : Type} (call : Call α) (hc : c.Facing size)
    (hdepth : 8 * c.raw.length + call.rank ≤ depth) : Coincide size 0 (a call) (b call) c :=
  (h call c hc hdepth).weaken

variable (h : Settled size depth a b) (hc : c.Facing size)

include h hc

lemma coincide_expr (hdepth : 8 * c.raw.length + 2 ≤ depth + 1) :
    Coincide size c.due (body a expr) (body b expr) c := by
  refine .peek ((h operand c hc (by simp only [rank]; omega)).bind fun first d _ hd hless => ?_)
  exact h.call (chain _ first) hd (by simp only [rank]; omega)

lemma coincide_chain (start : Nat) (left : Node) (hdepth : 8 * c.raw.length + 1 ≤ depth + 1) :
    Coincide size 0 (body a (chain start left)) (body b (chain start left)) c := by
  refine .peek ?_
  dsimp only
  split
  · next hk =>
      refine .bumpKind hc hk (by simp) fun d hd hd' => ?_
      refine (h.call operand hd (by simp only [rank]; omega)).bind fun right e _ he he' => ?_
      refine (coincide_applied he _ _ _).bind fun joined f _ hf hf' => ?_
      exact h.call (chain start joined) hf (by simp only [rank]; omega)
  · next hk =>
      refine .bumpKind hc hk (by simp) fun d hd hd' => ?_
      refine (h.call operand hd (by simp only [rank]; omega)).bind fun right e _ he he' => ?_
      split
      · refine (coincide_spanFrom he _).bind fun span f _ hf hf' => ?_
        exact h.call (chain start _) hf (by simp only [rank]; omega)
      · exact .failAt he
  · exact .pure hc

lemma coincide_operand (hdepth : 8 * c.raw.length + 1 ≤ depth + 1) :
    Coincide size c.due (body a operand) (body b operand) c := by
  refine .bump hc fun d hd hd' => ?_
  have hless : c.current.kind ≠ .eof → d.raw.length < c.raw.length := by
    intro hk
    rw [Cursor.due, if_neg hk] at hd'
    omega
  dsimp only
  split
  · next hk =>
      have hless := hless (by simp [hk])
      exact h.call (gateCall _ _) hd (by simp only [rank]; omega)
  · next hk =>
      have hless := hless (by simp [hk])
      exact h.call (gateCall _ _) hd (by simp only [rank]; omega)
  · exact .pure hd
  · exact .pure hd
  · exact .pure hd
  · next hk =>
      have hless := hless (by simp [hk])
      exact h.call (application _) hd (by simp only [rank]; omega)
  · next hk =>
      have hless := hless (by simp [hk])
      refine .expect hd (by simp) fun e he he' => ?_
      refine (h.call expr he (by simp only [rank]; omega)).bind fun value f _ hf hf' => ?_
      exact .expect hf (by simp) fun g hg _ => coincide_applied hg _ _ _
  · next hk =>
      have hless := hless (by simp [hk])
      refine .expect hd (by simp) fun e he he' => ?_
      refine (h.call expr he (by simp only [rank]; omega)).bind fun left f _ hf hf' => ?_
      refine .expect hf (by simp) fun g hg hg' => ?_
      refine (h.call expr hg (by simp only [rank]; omega)).bind fun right i _ hi _ => ?_
      exact .expect hi (by simp) fun j hj _ => coincide_applied hj _ _ _
  · next hk =>
      have hless := hless (by simp [hk])
      refine (h.call wideList hd (by simp only [rank]; omega)).bind fun args e _ he _ => ?_
      exact coincide_applied he _ _ _
  · next hk =>
      have hless := hless (by simp [hk])
      refine (h.call cons hd (by simp only [rank]; omega)).bind fun node e _ he _ => ?_
      exact .expect he (by simp) fun f hf _ => .pure hf
  · exact .failAt hd
  · exact .failAt hd

lemma coincide_gateCall (start : Nat) (target : Node)
    (hdepth : 8 * c.raw.length + 1 ≤ depth + 1) :
    Coincide size 0 (body a (gateCall start target)) (body b (gateCall start target)) c := by
  refine .peek (.ite (fun hk => ?_) fun _ => .pure hc)
  refine .bumpKind hc hk (by simp) fun d hd hd' => .peek (.ite (fun hk => ?_) fun _ => ?_)
  · exact .bumpKind hd hk (by simp) fun e he _ => coincide_applied he _ _ _
  · refine (h.call callPairs hd (by simp only [rank]; omega)).bind fun pairs e _ he _ => ?_
    exact coincide_applied he _ _ _

lemma coincide_callPairs (hdepth : 8 * c.raw.length + 3 ≤ depth + 1) :
    Coincide size 0 (body a callPairs) (body b callPairs) c := by
  refine (h.call expr hc (by simp only [rank]; omega)).bind fun name d _ hd hd' => ?_
  refine .expect hd (by simp) fun e he he' => ?_
  refine (h.call expr he (by simp only [rank]; omega)).bind fun value f _ hf hf' => ?_
  refine .peek (.ite (fun hk => .bumpKind hf hk (by simp) fun g hg _ => .pure hg) fun _ => ?_)
  refine .expect hf (by simp) fun g hg hg' => .expect hg (by simp) fun i hi hi' => ?_
  refine (h.call callPairs hi (by simp only [rank]; omega)).bind fun pairs j _ hj _ => ?_
  exact .pure hj

lemma coincide_cons (hdepth : 8 * c.raw.length + 3 ≤ depth + 1) :
    Coincide size 0 (body a cons) (body b cons) c := by
  refine .peek ?_
  refine (h.call expr hc (by simp only [rank]; omega)).bind fun head d _ hd hd' => ?_
  refine .peek (.ite (fun _ => .pure hd) fun _ => .expect hd (by simp) fun e he he' => ?_)
  refine (h.call cons he (by simp only [rank]; omega)).bind fun tail f _ hf _ => ?_
  exact (coincide_spanFrom hf _).bind fun span g _ hg _ => .pure hg

lemma coincide_wideList (hdepth : 8 * c.raw.length + 3 ≤ depth + 1) :
    Coincide size 0 (body a wideList) (body b wideList) c := by
  refine (h.call expr hc (by simp only [rank]; omega)).bind fun node d _ hd hd' => ?_
  refine .peek (.ite (fun hk => .bumpKind hd hk (by simp) fun e he _ => .pure he) fun _ => ?_)
  refine .expect hd (by simp) fun e he he' => ?_
  exact (h.call wideList he (by simp only [rank]; omega)).bind fun nodes f _ hf _ => .pure hf

lemma coincide_application (token : Token) (hdepth : 8 * c.raw.length + 3 ≤ depth + 1) :
    Coincide size 0 (body a (application token)) (body b (application token)) c := by
  unfold body
  dsimp only
  split
  · exact .fail (by simp) hc
  · next signature _ =>
      refine .peek (.ite (fun _ => ?_) fun _ => ?_)
      · refine (h.call (wide _ _ _) hc (by simp only [rank]; omega)).bind fun args d _ hd _ => ?_
        exact coincide_applied hd _ _ _
      · refine (h.call (tall _ _ _) hc (by simp only [rank]; omega)).bind fun args d _ hd _ => ?_
        exact coincide_applied hd _ _ _

lemma coincide_wide (r : Rune) (s : Signature) (span : Span)
    (hdepth : 8 * c.raw.length + 2 ≤ depth + 1) :
    Coincide size 0 (body a (wide r s span)) (body b (wide r s span)) c := by
  refine .ite (fun _ => .failAt hc) fun _ => .expect hc (by simp) fun d hd hd' => ?_
  have hargs : ∀ (args : List Node) (e : Cursor), e.Facing size → Coincide size 0
      (if s.accepts args.length then pure args else fail span (.arity r s args.length))
      (if s.accepts args.length then pure args else fail span (.arity r s args.length)) e :=
    fun args e he => .ite (fun _ => .pure he) fun _ => .failAt he
  refine .peek (.ite (fun _ => ?_) fun _ => .ite (fun hk => ?_) fun _ => ?_)
  · refine (h.call (wideJogging s) hd (by simp only [rank]; omega)).bind fun args e _ he _ => ?_
    exact hargs args e he
  · exact .bumpKind hd hk (by simp) fun e he _ => hargs [] e he
  · refine (h.call wideList hd (by simp only [rank]; omega)).bind fun args e _ he _ => ?_
    exact hargs args e he

lemma coincide_wideFixed (count : Nat) (hdepth : 8 * c.raw.length + 3 ≤ depth + 1) :
    Coincide size 0 (body a (wideFixed count)) (body b (wideFixed count)) c := by
  rcases count with _ | _ | count
  · exact .pure hc
  · exact (h.call expr hc (by simp only [rank]; omega)).bind fun node d _ hd _ => .pure hd
  · refine (h.call expr hc (by simp only [rank]; omega)).bind fun node d _ hd hd' => ?_
    refine .expect hd (by simp) fun e he he' => ?_
    refine (h.call (wideFixed _) he (by simp only [rank]; omega)).bind fun nodes f _ hf _ => ?_
    exact .pure hf

lemma coincide_wideJogging (s : Signature) (hdepth : 8 * c.raw.length + 4 ≤ depth + 1) :
    Coincide size 0 (body a (wideJogging s)) (body b (wideJogging s)) c := by
  refine (h.call (wideFixed _) hc (by simp only [rank]; omega)).bind fun fixed d _ hd hd' => ?_
  have hpairs : ∀ e : Cursor, e.Facing size → e.raw.length ≤ d.raw.length → Coincide size 0
      (do let pairs ← a (widePairs s); return fixed ++ pairs)
      (do let pairs ← b (widePairs s); return fixed ++ pairs) e := by
    intro e he he'
    refine (h.call (widePairs s) he (by simp only [rank]; omega)).bind fun pairs f _ hf _ => ?_
    exact .pure hf
  refine .peek (.ite (fun hk => .bumpKind hd hk (by simp) fun e he _ => .pure he) fun _ => ?_)
  refine .ite (fun _ => .expect hd (by simp) fun e he he' => ?_) fun _ => ?_
  · exact hpairs e he (Nat.le_of_lt he')
  · exact hpairs d hd (Nat.le_refl _)

lemma coincide_widePairs (s : Signature) (hdepth : 8 * c.raw.length + 3 ≤ depth + 1) :
    Coincide size 0 (body a (widePairs s)) (body b (widePairs s)) c := by
  refine (h.call expr hc (by simp only [rank]; omega)).bind fun name d _ hd hd' => ?_
  refine .expect hd (by simp) fun e he he' => ?_
  refine (h.call expr he (by simp only [rank]; omega)).bind fun value f _ hf hf' => .peek ?_
  refine .ite (fun hk => .bumpKind hf hk (by simp) fun g hg _ => .pure hg) fun _ => ?_
  refine .ite (fun hk => .bumpKind hf hk (by simp) fun g hg hg' => ?_) fun _ => ?_
  · refine .expect hg (by simp) fun i hi hi' => ?_
    refine (h.call (widePairs s) hi (by simp only [rank]; omega)).bind fun rest j _ hj _ => ?_
    exact .pure hj
  · refine .ite (fun hk => .bumpKind hf hk.1 (by simp) fun g hg hg' => ?_) fun _ => .failAt hf
    refine (h.call wideList hg (by simp only [rank]; omega)).bind fun rest i _ hi _ => ?_
    exact .pure hi

lemma coincide_tall (r : Rune) (s : Signature) (span : Span)
    (hdepth : 8 * c.raw.length + 2 ≤ depth + 1) :
    Coincide size 0 (body a (tall r s span)) (body b (tall r s span)) c := by
  refine (h.call (tallFixed _) hc (by simp only [rank]; omega)).bind fun fixed d _ hd hd' => ?_
  have hrest : ∀ (items : List Node) (e : Cursor), e.Facing size →
      e.raw.length ≤ d.raw.length → Coincide size 0
        (if s.tail = .pairs ∧ items.length % 2 ≠ 0 then fail span (.oddPairs r)
        else do let post ← a (tallFixed s.post); return fixed ++ items ++ post)
        (if s.tail = .pairs ∧ items.length % 2 ≠ 0 then fail span (.oddPairs r)
        else do let post ← b (tallFixed s.post); return fixed ++ items ++ post) e := by
    intro items e he he'
    refine .ite (fun _ => .failAt he) fun _ => ?_
    refine (h.call (tallFixed _) he (by simp only [rank]; omega)).bind fun post f _ hf _ => ?_
    exact .pure hf
  have hitems : ∀ closer, Coincide size 0 (a (tallUntil closer r span))
      (b (tallUntil closer r span)) d :=
    fun closer => h.call (tallUntil closer r span) hd (by simp only [rank]; omega)
  dsimp only
  split
  · exact hrest [] d hd (Nat.le_refl _)
  · exact (hitems .tistis).bind fun items e _ he he' => hrest items e he he'
  · exact (hitems .tistis).bind fun items e _ he he' => hrest items e he he'
  · exact (hitems .hephep).bind fun items e _ he he' => hrest items e he he'

lemma coincide_tallFixed (count : Nat) (hdepth : 8 * c.raw.length + 1 ≤ depth + 1) :
    Coincide size 0 (body a (tallFixed count)) (body b (tallFixed count)) c := by
  cases count with
  | zero => exact .pure hc
  | succ count =>
      refine .expectGap hc fun d hd hd' => ?_
      refine (h.call expr hd (by simp only [rank]; omega)).bind fun node e _ he he' => ?_
      refine (h.call (tallFixed _) he (by simp only [rank]; omega)).bind fun nodes f _ hf _ => ?_
      exact .pure hf

lemma coincide_tallUntil (closer : Kind) (r : Rune) (span : Span)
    (hdepth : 8 * c.raw.length + 1 ≤ depth + 1) :
    Coincide size 0 (body a (tallUntil closer r span)) (body b (tallUntil closer r span)) c := by
  refine .peek (.ite (fun _ => .failAt hc) fun _ => .expectGap hc fun d hd hd' => .peek ?_)
  have hclose : Coincide size d.due (do let _ ← bump; return ([] : List Node))
      (do let _ ← bump; return []) d := .bump hd fun e he _ => .pure he
  refine .ite (fun _ => hclose.weaken) fun _ => .ite (fun _ => .failAt hd) fun _ => ?_
  refine (h.call expr hd (by simp only [rank]; omega)).bind fun node e _ he he' => ?_
  refine (h.call (tallUntil closer r span) he (by simp only [rank]; omega)).bind
    fun nodes f _ hf _ => ?_
  exact .pure hf

end

lemma rank_pos {α : Type} (call : Call α) : 0 < call.rank := by
  cases call <;> simp [rank]

/-- **Calls that are nested deeply enough do not depend on how the calls beyond that are answered**,
so none of these is made. -/
theorem settled_nested (depth : Nat) (a b : ∀ {α : Type}, Call α → Parse α) :
    Settled size depth (fun call => nested a depth call) fun call => nested b depth call := by
  induction depth with
  | zero =>
      intro α call c _ hdepth
      have hpos := call.rank_pos
      omega
  | succ depth ih =>
      intro α call c hc hdepth
      cases call with
      | expr => exact coincide_expr ih hc hdepth
      | chain start left => exact coincide_chain ih hc start left hdepth
      | operand => exact coincide_operand ih hc hdepth
      | gateCall start target => exact coincide_gateCall ih hc start target hdepth
      | callPairs => exact coincide_callPairs ih hc hdepth
      | cons => exact coincide_cons ih hc hdepth
      | wideList => exact coincide_wideList ih hc hdepth
      | application token => exact coincide_application ih hc token hdepth
      | wide r s span => exact coincide_wide ih hc r s span hdepth
      | wideFixed count => exact coincide_wideFixed ih hc count hdepth
      | wideJogging s => exact coincide_wideJogging ih hc s hdepth
      | widePairs s => exact coincide_widePairs ih hc s hdepth
      | tall r s span => exact coincide_tall ih hc r s span hdepth
      | tallFixed count => exact coincide_tallFixed ih hc count hdepth
      | tallUntil closer r span => exact coincide_tallUntil ih hc closer r span hdepth

end Call

/-- The budget of a cursor is a depth at which `expr` does not depend on how deeper calls are
answered. -/
lemma coincide_expression {c : Cursor} (hc : c.Facing size)
    (answer : ∀ {α : Type}, Call α → Parse α) {depth : Nat} (hdepth : c.budget ≤ depth) :
    Coincide size c.due (Call.nested answer depth .expr) expression c := by
  obtain ⟨more, rfl⟩ : ∃ more, depth = more + c.budget := ⟨depth - c.budget, by omega⟩
  have hbudget : 8 * c.raw.length + (Call.expr).rank ≤ c.budget := by
    simp only [Call.rank, Cursor.budget]
    omega
  have hnested := Call.settled_nested c.budget (fun call => Call.nested answer more call)
    (fun call => Call.within 0 call) .expr c hc hbudget
  exact hnested.of_eq (congrFun (Call.nested_add answer more c.budget .expr) c)
    (congrFun (Call.within_eq_nested c.budget .expr) c)

end Parse

/-! ## From a source on -/

namespace Cursor

open Parse

/-- A cursor that shows a gap in front of a source, where none is, so that `bump` shows its first
token. -/
def before (source : String) : Cursor := ⟨⟨.gap, "", ⟨0, 0⟩⟩, lex source, 0⟩

lemma facing_before (source : String) : (before source).Facing source.utf8ByteSize :=
  EndsOnce.cons (by simp [before]) (lex_eq source)

/-- The first token of a source is shown by `bump` on the cursor `before` it. -/
lemma bump_before (source : String) :
    (∀ c, ofSource source = .ok c → ∃ t, bump (before source) = (.ok t, c)) ∧
      ∀ e, ofSource source = .error e → ∃ d, bump (before source) = (.error e, d) := by
  obtain ⟨first, raw, hlex, hcursor⟩ := ofSource_eq source
  have hraw : (before source).raw = first :: raw := hlex
  cases hfold : fold first raw with
  | mk outcome rest =>
      rw [hfold] at hcursor
      cases outcome with
      | ok token =>
          refine ⟨fun c hc => ?_, fun e he => ?_⟩
          · rw [hcursor] at hc
            cases hc
            exact ⟨_, bump_of_ok hraw hfold⟩
          · rw [hcursor] at he
            cases he
      | error e =>
          refine ⟨fun c hc => ?_, fun e he => ?_⟩
          · rw [hcursor] at hc
            cases hc
          · rw [hcursor] at he
            cases he
            exact ⟨_, bump_of_error hraw hfold⟩

/-- The cursor after `count` calls of `expression` one after the other, whether they succeeded or
not. -/
def afterExpressions (c : Cursor) : Nat → Cursor
  | 0 => c
  | count + 1 => (expression (c.afterExpressions count)).2

variable {size : Nat} {c : Cursor}

lemma moved_expression (hc : c.Facing size) : Moved size c.due c (expression c) :=
  (coincide_expression hc (fun call => Call.within 0 call) (Nat.le_refl _)).moved

lemma facing_afterExpressions (hc : c.Facing size) (count : Nat) :
    (c.afterExpressions count).Facing size := by
  induction count with
  | zero => exact hc
  | succ count ih => exact (moved_expression ih).facing

/-- Every call of `expression` takes a token off those behind the cursor, until it shows the end. -/
lemma length_afterExpressions (hc : c.Facing size) (count : Nat) :
    (c.afterExpressions count).current.kind = .eof ∨
      (c.afterExpressions count).raw.length + count ≤ c.raw.length := by
  induction count with
  | zero => exact .inr (Nat.le_refl _)
  | succ count ih =>
      have hd := facing_afterExpressions hc count
      have hmoved := moved_expression hd
      by_cases hend : (c.afterExpressions count).current.kind = .eof
      · have hnil : (c.afterExpressions (count + 1)).raw = [] := by
          have hsuffix := hmoved.suffix
          rwa [(hd.eq_nil hend).2, List.suffix_nil] at hsuffix
        have hfacing : EndsOnce size _ := facing_afterExpressions hc (count + 1)
        rw [hnil] at hfacing
        exact .inl hfacing.kind_eq
      · have hless := hmoved.length
        rw [due, if_neg hend] at hless
        have hlength := ih.resolve_left hend
        exact .inr (by rw [afterExpressions]; omega)

/-- At the end of a source `expression` fails with `endOfInput` there. -/
lemma expression_of_eof (hc : c.Facing size) (hend : c.current.kind = .eof) :
    (expression c).1 = .error (.parse ⟨size, size⟩ .endOfInput) := by
  obtain ⟨hcurrent, hraw⟩ := hc.eq_nil hend
  have hbudget : c.budget = 6 + 1 + 1 := by rw [budget, hraw]; rfl
  rw [expression, hbudget, expr]
  simp only [operand, peek, Attempt.bind_apply, bump_of_nil hraw, hcurrent]
  rfl

end Cursor

open Parse in
/-- **Reading makes progress.** From a source whose first token is legal, expressions are read one
after the other, whether reading them succeeds or not.  Each time reading ends: no call goes deeper
than the budget of the cursor, however a deeper call would be answered.  If the end of the source is
not shown yet, at least one token is taken off those behind the cursor.  And once there were as many
attempts as the source has tokens, reading finds the end of the source. -/
theorem reading_progresses (source : String) (c : Cursor) (h : Cursor.ofSource source = .ok c)
    (count : Nat) :
    let d := c.afterExpressions count
    (∀ (answer : ∀ {α : Type}, Call α → Parse α) (depth : Nat), d.budget ≤ depth →
        Call.nested answer depth .expr d = expression d) ∧
      (d.current.kind ≠ .eof →
        (expression d).2.raw <:+ d.raw ∧ (expression d).2.raw.length < d.raw.length) ∧
      ((lex source).length ≤ count →
        (expression d).1 =
          .error (.parse ⟨source.utf8ByteSize, source.utf8ByteSize⟩ .endOfInput) ∧
        ParseFault.endOfInput.message = "unexpected end of input") := by
  intro d
  obtain ⟨t, hbump⟩ := (Cursor.bump_before source).1 c h
  have hfirst := moved_bump (Cursor.facing_before source)
  rw [hbump] at hfirst
  have hd : d.Facing source.utf8ByteSize := Cursor.facing_afterExpressions hfirst.facing count
  refine ⟨fun answer depth hdepth => (coincide_expression hd answer hdepth).same, fun hkind => ?_,
    fun hcount => ⟨?_, rfl⟩⟩
  · have hmoved := Cursor.moved_expression hd
    have hless := hmoved.length
    rw [Cursor.due, if_neg hkind] at hless
    exact ⟨hmoved.suffix, hless⟩
  · refine Cursor.expression_of_eof hd ?_
    have hlength : c.raw.length + 1 ≤ (lex source).length := hfirst.length
    rcases Cursor.length_afterExpressions hfirst.facing count with hend | hless
    · exact hend
    · change d.raw.length + count ≤ c.raw.length at hless
      omega

/-- A tab stops the first attempt, and an open bracket the second; the third finds the end, and so
does the sixth, when there were as many attempts as tokens. -/
theorem reading_progresses_stumbling : ∃ c, Cursor.ofSource "a\t(b" = .ok c ∧
    (lex "a\t(b").length = 5 ∧
    (Parse.expression c).1 = .error (.illegal ⟨1, 2⟩ "\t") ∧
    (Parse.expression c).2.raw.length < c.raw.length ∧
    (Parse.expression (c.afterExpressions 5)).1 = .error (.parse ⟨4, 4⟩ .endOfInput) := by
  have hstart : Cursor.ofSource "a\t(b" = .ok ⟨⟨.face, "a", ⟨0, 1⟩⟩,
      [⟨.illegal, "\t", ⟨1, 2⟩⟩, ⟨.mark .pal, "(", ⟨2, 3⟩⟩, ⟨.face, "b", ⟨3, 4⟩⟩, .eof 4], 0⟩ := by
    decide +kernel
  obtain ⟨-, hless, -⟩ := reading_progresses _ _ hstart 0
  obtain ⟨-, -, hend⟩ := reading_progresses _ _ hstart 5
  exact ⟨_, hstart, by decide +kernel, by decide +kernel, (hless (by decide)).2,
    (hend (by decide +kernel)).1⟩

end Runic
