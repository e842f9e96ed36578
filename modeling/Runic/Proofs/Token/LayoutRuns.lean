import Mathlib.Data.List.SplitBy
import Mathlib.Data.List.TakeWhile
import Runic.Proofs.Token.Folding
import Runic.Proofs.Token.Tiling

/-!
# Runs of layout

What folding makes of a list of tokens, said without folding: the list is cut into runs, where two
neighbours belong to one run exactly if both are layout, and each run is replaced as a whole.

* `foldedRuns` — all runs replaced.
* `foldedRuns_of_tiles` — **that is what folding makes of tokens that tile a source.**
-/

namespace Runic

/-! ## Definitions -/

/-- Two neighbours belong to one run of layout. -/
def sameRun (a b : Token) : Bool := a.kind.isLayout && b.kind.isLayout

/-- The token that stands for a run: one separator for a run of layout, from its start to its stop,
which is a single space only if the run is one; any other token stands for itself. -/
def foldRun (run : List Token) : Option Token :=
  run.head?.map fun first =>
    if first.kind.isLayout then
      { first with
        kind := if run.map (·.kind) = [.ace] then .ace else .gap
        span := ⟨first.span.start, (run.getLastD first).span.stop⟩ }
    else first

/-- The tokens with every longest run of layout replaced by one token. -/
def foldedRuns (ts : List Token) : List Token :=
  (ts.splitBy sameRun).filterMap foldRun

/-! ## One run -/

lemma foldRun_single {t : Token} (h : t.kind.isLayout ≠ true) : foldRun [t] = some t := by
  simp [foldRun, h]

/-- The last of some tokens that tile a range stops where the range does. -/
lemma Tiles.stop_getLastD {t : Token} {ts : List Token} {stop : Nat}
    (h : Tiles t.span.stop ts stop) : (ts.getLastD t).span.stop = stop := by
  induction ts generalizing t with
  | nil => exact h
  | cons u ts ih =>
      rw [List.getLastD_cons]
      exact ih h.2.2

/-- Merging a span with the tokens that tile the range behind it gives the span up to the end of
that range. -/
lemma Tiles.foldl_merge {ts : List Token} {span : Span} {stop : Nat}
    (hspan : span.start ≤ span.stop) (h : Tiles span.stop ts stop) :
    ts.foldl (fun span t => span.merge t.span) span = ⟨span.start, stop⟩ := by
  induction ts generalizing span with
  | nil =>
      cases h
      rfl
  | cons t ts ih =>
      obtain ⟨hstart, hle, hts⟩ := h
      have hmerge : span.merge t.span = ⟨span.start, t.span.stop⟩ := by
        rw [Span.merge, hstart, Nat.min_eq_left hspan, Nat.max_eq_right hle]
      rw [List.foldl_cons, hmerge]
      exact ih (hspan.trans hle) hts

/-- A run of layout that tiles a range is replaced by a separator over the whole range. -/
lemma foldRun_of_tiles {start stop : Nat} {first : Token} {run : List Token}
    (h : Tiles start (first :: run) stop) (hfirst : first.kind.isLayout = true) :
    foldRun (first :: run) = some
      { first with
        kind := if run = [] ∧ first.kind ≠ .comment then first.kind else .gap
        span := run.foldl (fun span t => span.merge t.span) first.span } := by
  have hkind : (if (first :: run).map (·.kind) = [.ace] then Kind.ace else .gap) =
      if run = [] ∧ first.kind ≠ .comment then first.kind else .gap := by
    cases run with
    | nil => cases hk : first.kind <;> simp_all [Kind.isLayout]
    | cons t run => simp
  obtain ⟨hstart, hle, hrun⟩ := h
  rw [Tiles.foldl_merge (hstart ▸ hle) hrun, ← hrun.stop_getLastD, ← hkind]
  simp only [foldRun, List.head?_cons, Option.map_some, hfirst, if_true, List.getLastD_cons]

/-! ## All runs -/

/-- The first group of `splitBy sameRun` is the longest run of layout in front. -/
lemma splitBy_layout {first : Token} (h : first.kind.isLayout = true) (raw : List Token) :
    (first :: raw).splitBy sameRun =
      (first :: raw.takeWhile (·.kind.isLayout)) ::
        (raw.dropWhile (·.kind.isLayout)).splitBy sameRun := by
  have hall : ∀ t ∈ first :: raw.takeWhile (·.kind.isLayout), t.kind.isLayout = true :=
    List.forall_mem_cons.2
      ⟨h, fun t ht => List.mem_takeWhile_imp (p := fun t : Token => t.kind.isLayout) ht⟩
  have hchain : (first :: raw.takeWhile (·.kind.isLayout)).IsChain fun a b => sameRun a b :=
    (List.pairwise_of_forall_mem_list fun a ha b hb => by
      simp [sameRun, hall a ha, hall b hb]).isChain
  have hcut : ∀ a ∈ (first :: raw.takeWhile (·.kind.isLayout)).getLast?,
      ∀ b ∈ (raw.dropWhile (·.kind.isLayout)).head?, sameRun a b = false := by
    intro a _ b hb
    rw [← List.find?_not_eq_head?_dropWhile] at hb
    have hb : b.kind.isLayout = false := by simpa using List.find?_some hb
    rw [sameRun, hb, Bool.and_false]
  have happend := List.splitBy_append hcut
  rw [List.cons_append, List.takeWhile_append_dropWhile] at happend
  rw [happend, List.splitBy_of_isChain (List.cons_ne_nil _ _) hchain]
  rfl

/-- A token that is no layout is a group of its own in `splitBy sameRun`. -/
lemma splitBy_single {t : Token} (h : t.kind.isLayout ≠ true) (ts : List Token) :
    (t :: ts).splitBy sameRun = [t] :: ts.splitBy sameRun := by
  have hcut : ∀ a ∈ [t].getLast?, ∀ b ∈ ts.head?, sameRun a b = false := by simp [sameRun, h]
  exact List.splitBy_append hcut

/-- **For tokens that tile a range, `folded` is `foldedRuns`**: each longest run of layout is
replaced by one separator. -/
lemma foldedRuns_of_tiles {start stop : Nat} {ts : List Token} (h : Tiles start ts stop) :
    foldedRuns ts = folded ts := by
  -- on the number of tokens, as a whole run goes in one step
  induction hlength : ts.length using Nat.strong_induction_on generalizing start ts with
  | h n ih =>
      subst hlength
      cases ts with
      | nil => rfl
      | cons first raw =>
          by_cases hfirst : first.kind.isLayout = true
          · have hless : (raw.dropWhile (·.kind.isLayout)).length < (first :: raw).length :=
              Nat.lt_succ_of_le (List.dropWhile_suffix _).length_le
            have hsplit : raw.takeWhile (·.kind.isLayout) ++ raw.dropWhile (·.kind.isLayout) =
                raw := List.takeWhile_append_dropWhile
            rw [← hsplit, ← List.cons_append, tiles_append] at h
            obtain ⟨mid, hrun, hrest⟩ := h
            rw [foldedRuns, splitBy_layout hfirst, folded_layout raw hfirst,
              List.filterMap_cons_some (foldRun_of_tiles hrun hfirst), ← ih _ hless hrest rfl]
            rfl
          · have hless : raw.length < (first :: raw).length := Nat.lt_succ_self _
            rw [foldedRuns, splitBy_single hfirst, folded, if_neg hfirst,
              List.filterMap_cons_some (foldRun_single hfirst), ← ih _ hless h.2.2 rfl]
            rfl

end Runic
