import Mathlib.Data.List.Chain
import Mathlib.Order.Lattice
import Mathlib.Tactic.Common
import Runic.Node.Cursor

/-!
# Folding layout

A cursor folds layout as it goes, one run at a time (`fold`).  Here a whole list of tokens is folded
at once (`folded`).

* `folded_of_fold` — the two agree.
* `folded_cons` — **what folding does to one more token in front**; the rest of the file follows
  from it.
-/

namespace Runic

/-- The tokens with each run of layout made one separator, which is an ace only if the run is one
ace. -/
def folded : List Token → List Token
  | [] => []
  | t :: ts =>
    if t.kind.isLayout then
      match folded ts with
      | [] => [{ t with kind := if t.kind = .comment then .gap else t.kind }]
      | next :: rest =>
        if next.kind.isSeparator then
          { t with kind := .gap, span := t.span.merge next.span } :: rest
        else { t with kind := if t.kind = .comment then .gap else t.kind } :: next :: rest
    else t :: folded ts

/-! ## Folding step by step -/

lemma Span.merge_assoc (a b c : Span) : (a.merge b).merge c = a.merge (b.merge c) := by
  simp [Span.merge, min_assoc, max_assoc]

lemma foldl_merge (run : List Token) (a b : Span) :
    run.foldl (fun span t => span.merge t.span) (a.merge b) =
      a.merge (run.foldl (fun span t => span.merge t.span) b) := by
  induction run generalizing b with
  | nil => rfl
  | cons t run ih => simp only [List.foldl_cons, Span.merge_assoc, ih]

/-- The kind of the separator that a run of layout is folded to is an ace or a gap. -/
lemma isSeparator_of_isLayout {kind : Kind} (h : kind.isLayout = true) (p : Prop) [Decidable p] :
    (if p ∧ kind ≠ .comment then kind else Kind.gap).isSeparator = true := by
  split
  · next hp => cases kind <;> simp_all [Kind.isLayout, Kind.isSeparator]
  · rfl

lemma isSeparator_eq_false {kind : Kind} (h : kind.isLayout ≠ true) : kind.isSeparator = false := by
  cases kind <;> simp_all [Kind.isLayout, Kind.isSeparator]

/-- The first of `folded` tokens that start with layout is one separator over the whole run. -/
lemma folded_layout (raw : List Token) {first : Token} (h : first.kind.isLayout = true) :
    folded (first :: raw) =
      { first with
        kind := if raw.takeWhile (·.kind.isLayout) = [] ∧ first.kind ≠ .comment then first.kind
          else .gap
        span := (raw.takeWhile (·.kind.isLayout)).foldl (fun span t => span.merge t.span)
          first.span } :: folded (raw.dropWhile (·.kind.isLayout)) := by
  induction raw generalizing first with
  | nil =>
      rw [folded, if_pos h]
      by_cases hc : first.kind = .comment <;> simp [folded, hc]
  | cons t ts ih =>
      rw [folded, if_pos h]
      by_cases ht : t.kind.isLayout = true
      · rw [ih ht]
        simp only [isSeparator_of_isLayout ht]
        simp [ht, foldl_merge]
      · rw [folded, if_neg ht]
        simp only [isSeparator_eq_false ht]
        by_cases hc : first.kind = .comment <;> simp [folded, ht, hc]

/-- Folding one token off the front is what `folded` does all along. -/
lemma folded_of_fold {first token : Token} {raw rest : List Token}
    (h : fold first raw = (.ok token, rest)) : folded (first :: raw) = token :: folded rest := by
  by_cases hl : first.kind.isLayout = true
  · rw [folded_layout raw hl]
    unfold fold at h
    split at h
    · simp at h
    · cases h
      rfl
    · cases h
      rfl
    · cases h
      rfl
    · cases hk : first.kind <;> simp_all [Kind.isLayout]
  · rw [folded, if_neg hl]
    unfold fold at h
    split at h <;> simp_all [Kind.isLayout]

/-- If `first` is not illegal, then `fold` succeeds on it and leaves a suffix of the tokens. -/
lemma exists_fold {first : Token} (h : first.kind ≠ .illegal) (raw : List Token) :
    ∃ token rest, fold first raw = (.ok token, rest) ∧ rest <:+ raw := by
  unfold fold
  split
  · next hk => exact absurd hk h
  · exact ⟨_, _, rfl, List.dropWhile_suffix _⟩
  · exact ⟨_, _, rfl, List.dropWhile_suffix _⟩
  · exact ⟨_, _, rfl, List.dropWhile_suffix _⟩
  · exact ⟨_, _, rfl, List.suffix_refl raw⟩

/-! ## What folding keeps -/

/-- What `folded` does with a token in front: it keeps it if it is no layout, and otherwise makes it
a separator that takes in a separator behind it. -/
lemma folded_cons (t : Token) (ts : List Token) :
    t.kind.isLayout = false ∧ folded (t :: ts) = t :: folded ts ∨
      t.kind.isLayout = true ∧ ∃ sep : Token, sep.kind.isSeparator = true ∧
        (folded (t :: ts) = sep :: folded ts ∧
            (∀ next ∈ (folded ts).head?, next.kind.isSeparator = false) ∨
          ∃ next rest, folded ts = next :: rest ∧ next.kind.isSeparator = true ∧
            folded (t :: ts) = sep :: rest) := by
  rw [folded]
  split
  · next hl =>
      have hsep : (if t.kind = .comment then .gap else t.kind : Kind).isSeparator = true := by
        split
        · rfl
        · cases hk : t.kind <;> simp_all [Kind.isLayout, Kind.isSeparator]
      refine .inr ⟨hl, ?_⟩
      split
      · next h => exact ⟨_, hsep, .inl ⟨by rw [h], by simp [h]⟩⟩
      · next next rest h =>
          split
          · next hnext => exact ⟨_, rfl, .inr ⟨next, rest, h, hnext, rfl⟩⟩
          · next hnext => exact ⟨_, hsep, .inl ⟨by rw [h], by simpa [h] using hnext⟩⟩
  · next hl => exact .inl ⟨by simpa using hl, rfl⟩

lemma length_folded_le (ts : List Token) : (folded ts).length ≤ ts.length := by
  induction ts with
  | nil => exact le_rfl
  | cons t ts ih =>
      rcases folded_cons t ts with ⟨-, h⟩ | ⟨-, sep, -, ⟨h, -⟩ | ⟨next, rest, hts, -, h⟩⟩
      · simpa [h] using ih
      · simpa [h] using ih
      · rw [hts] at ih
        rw [h]
        exact ih.trans (by simp)

/-- A token of `folded ts` is a separator or one of `ts`. -/
lemma of_mem_folded {t : Token} {ts : List Token} (ht : t ∈ folded ts) :
    t.kind.isSeparator = true ∨ t ∈ ts := by
  induction ts with
  | nil => cases ht
  | cons u ts ih =>
      rcases folded_cons u ts with ⟨-, h⟩ | ⟨-, sep, hsep, ⟨h, -⟩ | ⟨next, rest, hts, -, h⟩⟩ <;>
        rw [h, List.mem_cons] at ht <;> rcases ht with rfl | ht
      · exact .inr List.mem_cons_self
      · exact (ih ht).imp_right (List.mem_cons_of_mem u)
      · exact .inl hsep
      · exact (ih ht).imp_right (List.mem_cons_of_mem u)
      · exact .inl hsep
      · exact (ih (hts ▸ List.mem_cons_of_mem next ht)).imp_right (List.mem_cons_of_mem u)

/-- A token of `ts` that is no layout is one of `folded ts`. -/
lemma mem_folded {t : Token} {ts : List Token} (ht : t ∈ ts) (hkind : t.kind.isLayout = false) :
    t ∈ folded ts := by
  have hnext : ∀ u : Token, u.kind.isSeparator = true → t ≠ u := by
    rintro u hu rfl
    rw [isSeparator_eq_false (by simp [hkind])] at hu
    cases hu
  induction ts with
  | nil => cases ht
  | cons u ts ih =>
      rcases folded_cons u ts with ⟨-, h⟩ | ⟨hl, sep, -, h⟩
      · rw [h, List.mem_cons]
        exact (List.mem_cons.1 ht).imp_right ih
      · have ht : t ∈ folded ts := by
          rcases List.mem_cons.1 ht with rfl | ht
          · rw [hl] at hkind
            cases hkind
          · exact ih ht
        rcases h with ⟨h, -⟩ | ⟨next, rest, hts, hsep, h⟩
        · rw [h]
          exact List.mem_cons_of_mem sep ht
        · rw [hts, List.mem_cons] at ht
          rw [h]
          exact List.mem_cons_of_mem sep (ht.resolve_left (hnext next hsep))

lemma folded_concat (ts : List Token) {e : Token} (he : e.kind.isLayout = false) :
    folded (ts ++ [e]) = folded ts ++ [e] := by
  induction ts with
  | nil => simp [folded, he]
  | cons t ts ih =>
      rw [List.cons_append, folded, folded, ih]
      split
      · cases hts : folded ts with
        | nil => simp [isSeparator_eq_false (by simp [he] : e.kind.isLayout ≠ true)]
        | cons next rest =>
            simp only [List.cons_append]
            split <;> rfl
      · rfl

/-- In folded tokens no two separators stand side by side. -/
lemma folded_isChain (ts : List Token) :
    (folded ts).IsChain fun a b => ¬ (a.kind.isSeparator = true ∧ b.kind.isSeparator = true) := by
  induction ts with
  | nil => exact .nil
  | cons t ts ih =>
      rcases folded_cons t ts with
        ⟨hl, h⟩ | ⟨-, sep, hsep, ⟨h, hhead⟩ | ⟨next, rest, hts, hnext, h⟩⟩
      · rw [h]
        refine ih.cons fun u _ => ?_
        simp [isSeparator_eq_false (by simp [hl] : t.kind.isLayout ≠ true)]
      · rw [h]
        refine ih.cons fun u hu => ?_
        simp [hhead u hu]
      · rw [hts, List.isChain_cons] at ih
        rw [h, List.isChain_cons]
        exact ⟨fun u hu => by simpa [hsep, hnext] using ih.1 u hu, ih.2⟩

end Runic
