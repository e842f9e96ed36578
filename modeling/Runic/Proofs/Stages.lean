import Runic.Proofs.Canonical.NormalForm
import Runic.Proofs.Canonical.Words
import Runic.Proofs.Lowering.Blame

/-!
# The stages agree on what a rune is applied to

How many arguments a rune has is decided three times: by its signature when it is read, by the table
of expansions when it is reduced, and once more when it is lowered.

* `Rune.hasCode_of_takes` — what a canonical rune takes, it has code for.
* `stages_agree_on_arity` — **a tree that was read is never refused for a number of arguments** by
  the stages behind, nor for a rune without code; `:*` without items apart.
-/

namespace Runic

open Ir Node

/-- The error is one of lowering that says that there is no code for a node. -/
def Error.isDefensive : Error → Bool
  | .lower _ fault => fault.isDefensive
  | _ => false

/-- A canonical rune that takes `count` arguments has code for them. -/
lemma Rune.hasCode_of_takes {r : Rune} {count : Nat} (hc : r.isCanonical = true)
    (h : r.takes count = true) : r.hasCode count = true := by
  cases r
  case dotlus | barhep | dottis | bartis | tisfas | wutcol =>
    obtain rfl := eq_of_takes rfl (by decide) h
    rfl
  case cenhep =>
    have hcount : 0 < count ∨ count = 2 := by
      simpa [takes, signature?, Signature.accepts, Signature.fixed] using h
    exact decide_eq_true (by omega)
  case centis =>
    have haccepts : (Signature.pairs 1 0).accepts count = true := by
      simpa [takes, signature?] using h
    obtain ⟨hleast, hpairs⟩ := Bool.and_eq_true_iff.1 haccepts
    have hpos : 1 ≤ count := of_decide_eq_true hleast
    have heven : (count - 1) % 2 = 0 := beq_iff_eq.1 hpairs
    exact decide_eq_true (by omega)
  all_goals cases hc

/-- In a tree with canonical runes only, whose runes take their arguments, `isCoded` holds of the
root. -/
lemma isCoded_of_applied {n : Node} {empties : Span → Prop} {bits : Nat} (hplain : n.isPlain = true)
    (happlied : Applied empties n) : n.isCoded (.int bits) = true := by
  cases n with
  | rune r args span =>
      by_cases hr : r = .tisfas
      · subst hr
        exact Rune.hasCode_of_takes rfl happlied.1
      · rw [isPlain_rune hr] at hplain
        exact Rune.hasCode_of_takes hplain happlied.1
  | num => simp [isCoded]
  | _ => rfl

/-- If `isCoded` holds of every expression of `m`, then an error that is blamed on `m` is not that
there is no code. -/
lemma isDefensive_of_blamed {m : Node} {atom : Ty} {e : Error} (h : Lowering.Blamed atom m e)
    (hcoded : ∀ k ∈ m.expressions, k.isCoded atom = true) : e.isDefensive = false := by
  rcases h with ⟨fault, rfl⟩ | ⟨k, -, fault, rfl, hfault⟩
  · rfl
  · rw [Error.isDefensive, Bool.eq_false_iff]
    intro hd
    obtain ⟨hk, hnot⟩ := hfault hd
    rw [hcoded k hk] at hnot
    cases hnot

/-- **The stages agree on arities and on the canonical runes.**  If a source is read as a tree, the
tree is not refused by reduction for a number of arguments, except for a `:*` in it that has no
items.  And if it is reduced, the result is not refused by lowering for a number of arguments or for
a node without code, neither as a program of its own nor in any place of any module. -/
theorem stages_agree_on_arity {source : String} {n : Node} (h : parse source = .ok n) :
    (∀ e, reduce n = .error e → e.isMiscount = true →
      ∃ span, e = .reduce span (.tooFew .coltar 1) ∧ .rune .coltar [] span ∈ n.subtrees) ∧
    ∀ m, reduce n = .ok m → ∀ bits,
      (∀ entry e, m.toModule (.int bits) entry = .error e → e.isDefensive = false) ∧
        ∀ σ func block module e module', Lowering.lower m σ ⟨.int bits, func, block⟩ module =
          (.error e, module') → e.isDefensive = false := by
  have happlied : n.All (Applied fun span => .rune .coltar [] span ∈ n.subtrees) := fun k hk =>
    applied_of_isWellFormed (isLegible_of_parse h k hk) fun span hspan => hspan ▸ hk
  refine ⟨fun e he hm => reduce_miscount happlied he hm, fun m hm bits => ?_⟩
  have hcoded : ∀ k ∈ m.expressions, k.isCoded (.int bits) = true := fun k hk =>
    isCoded_of_applied (isPlain_of_reduce hm k hk)
      (applied_of_reduce happlied hm k (mem_subtrees_of_mem_expressions hk))
  constructor
  · intro entry e he
    exact isDefensive_of_blamed (Lowering.blamed_of_toModule he) hcoded
  · intro σ func block module e module' he
    exact isDefensive_of_blamed (Lowering.traced_lower rfl m.mem_expressions he) hcoded

/-- Of two sources with a `=:`, one fails for its `:*`, and the other for what its `%*` calls. -/
theorem stages_agree_on_arity_jogging :
    (∃ n span, parse "=:(a 1, b 2 :*())" = .ok n ∧
        reduce n = .error (.reduce span (.tooFew .coltar 1)) ∧
        .rune .coltar [] span ∈ n.subtrees) ∧
      ∃ n m e, parse "=:(a 1, b 2 %*($ a b 3))" = .ok n ∧ reduce n = .ok m ∧
        m.toModule (.int 8) "main" = .error e ∧ e.isDefensive = false := by
  constructor
  · have hrun : (parse "=:(a 1, b 2 :*())").toOption.any (fun n =>
        match reduce n with
        | .ok _ => false
        | .error e => e.isMiscount) = true := by decide +kernel
    obtain ⟨n, hparse, hrun⟩ := exists_of_any_toOption hrun
    split at hrun
    · cases hrun
    · next e he =>
        obtain ⟨span, rfl, hmem⟩ := (stages_agree_on_arity hparse).1 e he hrun
        exact ⟨n, span, hparse, he, hmem⟩
  · have hrun : (parse "=:(a 1, b 2 %*($ a b 3))").toOption.any (fun n =>
        (reduce n).toOption.any fun m => (m.toModule (.int 8) "main").toOption = none) = true := by
      decide +kernel
    obtain ⟨n, hparse, hrun⟩ := exists_of_any_toOption hrun
    obtain ⟨m, hreduce, hrun⟩ := exists_of_any_toOption hrun
    obtain ⟨e, he⟩ := exists_of_toOption_eq_none (of_decide_eq_true hrun)
    exact ⟨n, m, e, hparse, hreduce, he, ((stages_agree_on_arity hparse).2 m hreduce 8).1 _ e he⟩

end Runic
