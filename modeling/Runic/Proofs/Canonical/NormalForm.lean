import Runic.Proofs.Canonical.Rules
import Runic.Proofs.Node.Parts

/-!
# Canonical form is a normal form

A tree is canonical if its expressions are: their runes are canonical, and a name is bound plainly
(`Node.isPlain`).  Names are no expressions, so nothing is asked of what is inside of one.

* `isPlain_of_reduce` — what comes out of reduction is canonical.
* `reduce_of_isPlain` — what is canonical is left as it is.
* `reduce_canonical_idempotent` — **both together**: reduction leads to a normal form, and a second
  reduction changes nothing, not even a span.
-/

namespace Runic

namespace Node

/-- The node is a label with its value, or a name with its mold. -/
def isFaced : Node → Bool
  | faced _ _ _ => true
  | _ => false

/-- The node is canonical at its top: its rune is canonical, and a `=/` has a name without mold, a
value and a body. -/
def isPlain : Node → Bool
  | rune .tisfas [name, _, _] _ => !name.isFaced
  | rune .tisfas _ _ => false
  | rune r _ _ => r.isCanonical
  | _ => true

lemma isPlain_rune {r : Rune} (h : r ≠ .tisfas) (args : List Node) (span : Span) :
    (rune r args span).isPlain = r.isCanonical := by
  unfold isPlain
  split <;> simp_all

/-- A canonical application of `=/` has a name without mold, a value and a body. -/
lemma exists_of_isPlain_tisfas {args : List Node} {span : Span}
    (h : (rune .tisfas args span).isPlain = true) :
    ∃ name value body, args = [name, value, body] ∧ name.isFaced = false := by
  rcases args with _ | ⟨name, _ | ⟨value, _ | ⟨body, _ | ⟨other, rest⟩⟩⟩⟩
  case cons.cons.cons.nil => exact ⟨name, value, body, rfl, by simpa [isPlain] using h⟩
  all_goals cases h

/-- A name without mold is what `boundName` leaves of it. -/
lemma boundName_eq_self {name : Node} (h : name.isFaced = false) : boundName name = name := by
  cases name <;> first | rfl | cases h

lemma isFaced_boundName (name : Node) : (boundName name).isFaced = false := by
  cases name <;> rfl

end Node

open Node

/-- **The canonical form that `reduce` gives is canonical at every expression.** -/
theorem isPlain_of_reduce {n m : Node} (h : reduce n = .ok m) :
    ∀ k ∈ m.expressions, k.isPlain = true := by
  induction n using reduction generalizing m with
  | buc | pat | dot | face | num =>
      simp only [reduce_buc, reduce_pat, reduce_dot, reduce_face, reduce_num] at h
      cases h
      simp [expressions, isPlain]
  | faced label value span ih =>
      rw [reduce_faced] at h
      obtain ⟨value', hvalue, rfl⟩ := bind_pure_eq_ok.1 h
      rw [expressions, List.forall_mem_cons]
      exact ⟨rfl, ih hvalue⟩
  | cell head tail span ihHead ihTail =>
      rw [reduce_cell] at h
      obtain ⟨head', hhead, h⟩ := bind_eq_ok.1 h
      obtain ⟨tail', htail, rfl⟩ := bind_pure_eq_ok.1 h
      rw [expressions, List.forall_mem_cons, List.forall_mem_append]
      exact ⟨rfl, ihHead hhead, ihTail htail⟩
  | tisfas name value body span ihValue ihBody =>
      rw [reduce_tisfas] at h
      obtain ⟨value', hvalue, h⟩ := bind_eq_ok.1 h
      obtain ⟨body', hbody, rfl⟩ := bind_pure_eq_ok.1 h
      rw [expressions, List.forall_mem_cons, forall_expressionsAll]
      refine ⟨by simp [isPlain, isFaced_boundName], ?_⟩
      simpa using ⟨ihValue hvalue, ihBody hbody⟩
  | odd args span hlength =>
      rw [reduce_odd hlength] at h
      cases h
  | canonical r args span hr hc ih =>
      rw [reduce_canonical hr hc] at h
      obtain ⟨args', hargs, rfl⟩ := bind_pure_eq_ok.1 h
      rw [expressions_rune hr, List.forall_mem_cons, forall_expressionsAll]
      refine ⟨(isPlain_rune hr _ _).trans hc, fun arg' harg' => ?_⟩
      obtain ⟨arg, harg, hreduce⟩ := exists_of_mem_mapM hargs harg'
      exact ih arg harg hreduce
  | short r args span hr ih =>
      rw [reduce_short hr] at h
      obtain ⟨node, hnode, h⟩ := bind_eq_ok.1 h
      exact ih node hnode h

/-- **A tree that is canonical at every expression is its own canonical form.** -/
theorem reduce_of_isPlain {m : Node} (h : ∀ k ∈ m.expressions, k.isPlain = true) :
    reduce m = .ok m := by
  induction m using Node.induction with
  | buc | pat | dot | face | num => simp
  | faced label value span ih =>
      rw [expressions, List.forall_mem_cons] at h
      rw [reduce_faced, ih h.2]
      rfl
  | cell head tail span ihHead ihTail =>
      rw [expressions, List.forall_mem_cons, List.forall_mem_append] at h
      rw [reduce_cell, ihHead h.2.1, ihTail h.2.2]
      rfl
  | rune r args span ih =>
      have hself := h _ (mem_expressions _)
      by_cases hr : r = .tisfas
      · subst hr
        obtain ⟨name, value, body, rfl, hname⟩ := exists_of_isPlain_tisfas hself
        rw [expressions, List.forall_mem_cons, forall_expressionsAll] at h
        have hvalue := ih value (by simp) (h.2 value (by simp))
        have hbody := ih body (by simp) (h.2 body (by simp))
        rw [reduce_tisfas, hvalue, hbody, boundName_eq_self hname]
        rfl
      · rw [isPlain_rune hr] at hself
        rw [expressions_rune hr, List.forall_mem_cons, forall_expressionsAll] at h
        have hargs : args.mapM reduce = .ok args :=
          mapM_eq_ok.2 (List.forall₂_same.2 fun arg harg => ih arg harg (h.2 arg harg))
        rw [reduce_canonical hr hself, hargs]
        rfl

/-- **Reduction leads to a normal form.**  If a tree is reduced, every expression of the result is
headed by a canonical rune, `=/` binds a plain name to one value in one body, and reducing the
result gives the result. -/
theorem reduce_canonical_idempotent {n m : Node} (h : reduce n = .ok m) :
    (∀ k ∈ m.expressions, k.isPlain = true) ∧ reduce m = .ok m :=
  ⟨isPlain_of_reduce h, reduce_of_isPlain (isPlain_of_reduce h)⟩

/-- The tree of `=;(a=^*(@) =?(a =(a 1) 2 =:(a b, b a %*($ a b .+(b)))) 7)`: a name whose mold is
no mold, a body that is repeated, and three slots. -/
def slottedTree : Node :=
  let s : Span := ⟨0, 0⟩
  let a := Node.face "a" s
  let b := Node.face "b" s
  let call := Node.rune .centar [.buc s, a, b, .rune .dotlus [b] s] s
  let body := Node.rune .tiscol [a, b, b, a, call] s
  let change := Node.rune .tiswut [a, .rune .dottis [a, .num "1" s] s, .num "2" s, body] s
  .rune .tismic [.faced "a" (.rune .kettar [.pat s] s) s, change, .num "7" s] s

theorem reduce_canonical_idempotent_slotted : slottedTree.isPlain = false ∧
    ∃ m, reduce slottedTree = .ok m ∧ (∀ k ∈ m.expressions, k.isPlain = true) ∧
      reduce m = .ok m := by
  have hrun : (reduce slottedTree).toOption.any (fun _ => true) = true := by decide +kernel
  obtain ⟨m, h, -⟩ := exists_of_any_toOption hrun
  exact ⟨rfl, m, h, reduce_canonical_idempotent h⟩

end Runic
