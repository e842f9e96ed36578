import Mathlib.Data.List.Basic
import Mathlib.Tactic.Common
import Runic.Lowering.Lower

/-!
# Lowering, case by case

Eight runes have code of their own, each for some numbers of arguments (`Rune.hasCode`).  The other
applications fail at once and do not look at anything.

* `lowering` — a case split that follows `lower`: what holds of the applications with code, and of
  those that fail at once, holds of every application.
-/

namespace Runic

open Ir Lowering

/-- The function `lower` has a case of its own for the rune with `count` arguments. -/
def Rune.hasCode : Rune → Nat → Bool
  | dotlus, 1 | barhep, 1 | dottis, 2 | bartis, 2 | tisfas, 3 | wutcol, 3 => true
  | cenhep, count => decide (0 < count)
  | centis, count => decide (count % 2 = 1)
  | _, _ => false

/-- The fault with which `lower` refuses an application of `r` that has no code. -/
def uncodedFault (r : Rune) (args : List Node) : LowerFault :=
  if r.isCanonical then .arity r args.length else .notCanonical r

/-- The cases of `lower` on runes. -/
@[elab_as_elim] theorem lowering {motive : Rune → List Node → Prop}
    (dottis : ∀ left right, motive .dottis [left, right])
    (dotlus : ∀ value, motive .dotlus [value])
    (tisfas : ∀ name value body, motive .tisfas [name, value, body])
    (wutcol : ∀ test yes no, motive .wutcol [test, yes, no])
    (barhep : ∀ body, motive .barhep [body])
    (bartis : ∀ sample body, motive .bartis [sample, body])
    (cenhep : ∀ target args, motive .cenhep (target :: args))
    (centis : ∀ target pairs, motive .centis (target :: pairs))
    (uncoded : ∀ r args, r.hasCode args.length = false →
      (∀ span σ site, lower (.rune r args span) σ site = fail span (uncodedFault r args)) →
      motive r args)
    (r : Rune) (args : List Node) : motive r args := by
  -- the split is the one of `lower`, at any place and under any subject
  generalize hrun : lower (.rune r args ⟨0, 0⟩) .empty ⟨.bool, 0, 0⟩ = x
  unfold lower at hrun
  split at hrun <;> rename_i heq <;> cases heq
  · exact dottis _ _
  · exact dotlus _
  · exact tisfas _ _ _
  · exact wutcol _ _ _
  · exact barhep _
  · exact bartis _ _
  · exact cenhep _ _
  · exact centis _ _
  · next hdottis hdotlus htisfas hwutcol hbarhep hbartis hcenhep hcentis =>
      refine uncoded r args ?_ ?_
      · unfold Rune.hasCode
        split
        · next hlength =>
            obtain ⟨a, ha⟩ := List.length_eq_one_iff.1 hlength
            exact (hdotlus a rfl ha).elim
        · next hlength =>
            obtain ⟨a, ha⟩ := List.length_eq_one_iff.1 hlength
            exact (hbarhep a rfl ha).elim
        · next hlength =>
            obtain ⟨a, b, ha⟩ := List.length_eq_two.1 hlength
            exact (hdottis a b rfl ha).elim
        · next hlength =>
            obtain ⟨a, b, ha⟩ := List.length_eq_two.1 hlength
            exact (hbartis a b rfl ha).elim
        · next hlength =>
            obtain ⟨a, b, c, ha⟩ := List.length_eq_three.1 hlength
            exact (htisfas a b c rfl ha).elim
        · next hlength =>
            obtain ⟨a, b, c, ha⟩ := List.length_eq_three.1 hlength
            exact (hwutcol a b c rfl ha).elim
        · cases args with
          | nil => rfl
          | cons a as => exact (hcenhep a as rfl rfl).elim
        · cases args with
          | nil => rfl
          | cons a as => exact (hcentis a as rfl rfl).elim
        · rfl
      · intro span σ site
        rw [lower, uncodedFault]
        · split <;> rfl
        all_goals assumption

end Runic
