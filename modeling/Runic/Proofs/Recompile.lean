import Runic.Compile
import Runic.Proofs.Canonical.NormalForm
import Runic.Proofs.Canonical.Words
import Runic.Proofs.Lowering.Bare

/-!
# Canonical trees as sources

A canonical tree that is written down may be no source: slots cannot be named, and some labels join
what stands behind them.  But where its text can be read at all, it is read as the same tree, and
that is compiled to the same module.

* `bare_of_parse_print` — a written canonical tree is read as itself, if it is read.
* `isPlain_of_bare_eq` — what is read is canonical, so reduction leaves it alone.
* `compile_print_canonical` — **what is printed in canonical form compiles to the same code**.
-/

namespace Runic

namespace Node

/-! ## Trees without places -/

lemma charsAll_bareAll {nodes : List Node} (h : ∀ n ∈ nodes, n.bare.chars = n.chars) :
    charsAll (bareAll nodes) = charsAll nodes := by
  rw [charsAll_eq_map, charsAll_eq_map, bareAll_eq_map, List.map_map]
  exact List.map_congr_left h

/-- The characters of a tree do not depend on its spans, which `bare` removes. -/
lemma chars_bare (n : Node) : n.bare.chars = n.chars := by
  induction n using Node.induction with
  | buc | pat | dot | face | num => rfl
  | faced label value span ih => rw [bare, chars, chars, ih]
  | cell head tail span ihHead ihTail => rw [bare, chars, chars, ihHead, ihTail]
  | rune r args span ih =>
      rw [bare]
      by_cases hr : r = .cenhep
      · rw [hr, chars_cenhep, chars_cenhep, charsAll_bareAll ih]
      · rw [chars_rune hr, chars_rune hr, charsAll_bareAll ih]

lemma isFaced_bare (n : Node) : n.bare.isFaced = n.isFaced := by
  cases n <;> rfl

lemma isPlain_bare (n : Node) : n.bare.isPlain = n.isPlain := by
  cases n with
  | rune r args span =>
      by_cases hr : r = .tisfas
      · subst hr
        rcases args with _ | ⟨name, _ | ⟨value, _ | ⟨body, _ | ⟨other, rest⟩⟩⟩⟩
        case cons.cons.cons.nil => simp [isPlain, isFaced_bare]
        all_goals simp [isPlain]
      · rw [bare, isPlain_rune hr, isPlain_rune hr]
  | _ => rfl

lemma expressionsAll_bareAll {nodes : List Node}
    (h : ∀ n ∈ nodes, n.bare.expressions = n.expressions.map bare) :
    expressionsAll (bareAll nodes) = (expressionsAll nodes).map bare := by
  induction nodes with
  | nil => rfl
  | cons node nodes ih =>
      rw [List.forall_mem_cons] at h
      rw [bareAll, expressionsAll, expressionsAll, List.map_append, h.1, ih h.2]

lemma operands_bareAll (r : Rune) (args : List Node) :
    operands r (bareAll args) = bareAll (operands r args) := by
  cases r <;> cases args <;> rfl

/-- The expressions of `n.bare` are those of `n` without their spans. -/
lemma expressions_bare (n : Node) : n.bare.expressions = n.expressions.map bare := by
  induction n using Node.induction with
  | buc | pat | dot | face | num => rfl
  | faced label value span ih => rw [bare, expressions, expressions, List.map_cons, ih, bare]
  | cell head tail span ihHead ihTail =>
      rw [bare, expressions, expressions, List.map_cons, List.map_append, ihHead, ihTail, bare]
  | rune r args span ih =>
      rw [bare, expressions_eq, expressions_eq, List.map_cons, bare, operands_bareAll,
        expressionsAll_bareAll fun arg harg => ih arg (mem_of_mem_operands harg)]

/-- If two trees differ in their spans only, and `isPlain` holds of all expressions of one of them,
it does of those of the other. -/
lemma isPlain_of_bare_eq {n m : Node} (h : m.bare = n.bare)
    (hn : ∀ k ∈ n.expressions, k.isPlain = true) : ∀ k ∈ m.expressions, k.isPlain = true := by
  intro k hk
  have hmem : k.bare ∈ n.expressions.map bare := by
    rw [← expressions_bare, ← h, expressions_bare]
    exact List.mem_map_of_mem hk
  obtain ⟨k', hk', hbare⟩ := List.mem_map.1 hmem
  rw [← isPlain_bare, ← hbare, isPlain_bare]
  exact hn k' hk'

end Node

open Node

/-! ## Writing canonical trees -/

/-- If the canonical form `c` of a legible tree is printed and parsed again, then the tree that is
read is `c` up to spans. -/
lemma bare_of_parse_print {n c m : Node} (hn : n.IsLegible) (hc : reduce n = .ok c)
    (hread : parse c.print = .ok m) : m.bare = c.bare := by
  have hwritten := isWritten_of_reduce hn hc
  have hbarred := not_isBarred_of_parse_print hwritten hread
  obtain ⟨m', hm', hbare⟩ := exists_parse_print fun k hk =>
    isWellFormed_of_not_isBarred (hwritten k hk) (hbarred k hk)
  rw [hread, Except.ok.injEq] at hm'
  rw [hm', hbare]

/-- A source compiles exactly if each stage succeeds on what the stage before it gives: the type of
atoms, `parse`, `reduce`, `toModule` and `render`. -/
lemma compile_eq_ok {source : String} {options : Options} {a : Artifact} :
    compile source options = .ok a ↔ ∃ atom n module, options.atom = .ok atom ∧
      parse source = .ok n ∧ reduce n = .ok a.canonical ∧
      a.canonical.toModule atom options.entry = .ok module ∧ module.render = .ok a.ir ∧
      module.functions.length = a.functions := by
  constructor
  · intro h
    obtain ⟨atom, hatom, h⟩ := bind_eq_ok.1 h
    obtain ⟨n, hparse, h⟩ := bind_eq_ok.1 h
    obtain ⟨c, hreduce, h⟩ := bind_eq_ok.1 h
    obtain ⟨module, hmodule, h⟩ := bind_eq_ok.1 h
    obtain ⟨ir, hrender, rfl⟩ := bind_pure_eq_ok.1 h
    exact ⟨atom, n, module, hatom, hparse, hreduce, hmodule, hrender, rfl⟩
  · rintro ⟨atom, n, module, hatom, hparse, hreduce, hmodule, hrender, hcount⟩
    rw [compile, hatom]
    simp only [bind, Except.bind, hparse, hreduce, hmodule, hrender, hcount]
    rfl

/-- **What is printed in canonical form compiles to the same code.**  If the canonical form of a
compiled source is written down and can be read again, it compiles under the same options, to the
same text of a module with as many functions, and to a canonical form that is written the same. -/
theorem compile_print_canonical {source : String} {options : Options} {a : Artifact} {m : Node}
    (h : compile source options = .ok a) (hread : parse a.canonical.print = .ok m) :
    ∃ b, compile a.canonical.print options = .ok b ∧ b.ir = a.ir ∧ b.functions = a.functions ∧
      b.canonical.print = a.canonical.print := by
  obtain ⟨atom, n, module, hatom, hparse, hreduce, hmodule, hrender, hcount⟩ := compile_eq_ok.1 h
  have hbare : m.bare = a.canonical.bare :=
    bare_of_parse_print (isLegible_of_parse hparse) hreduce hread
  have hplain := isPlain_of_bare_eq hbare (isPlain_of_reduce hreduce)
  have hcode : m.toModule atom options.entry = .ok module := by
    refine eq_ok_of_toOption ?_
    rw [Lowering.toModule_congr hbare, hmodule]
    rfl
  refine ⟨⟨a.ir, m, a.functions⟩, compile_eq_ok.2 ?_, rfl, rfl, ?_⟩
  · exact ⟨atom, m, module, hatom, hread, reduce_of_isPlain hplain, hcode, hrender, hcount⟩
  · rw [print, print, ← chars_bare, hbare, chars_bare]

/-- A program with a gate and a loop, written with runes that are not canonical. -/
def countdown : String :=
  "=/  n=@  6\n=/  step\n  |=  a=@\n  ^-  @\n  (dec a)\n|-\n?.  =(n 0)\n  $(n (step n))\n%.  n  step"

theorem compile_print_canonical_countdown : ∃ a b, compile countdown {} = .ok a ∧
    compile a.canonical.print {} = .ok b ∧ b.ir = a.ir ∧ b.functions = a.functions ∧
      b.canonical.print = a.canonical.print := by
  have hrun : (compile countdown {}).toOption.any
      (fun a => (parse a.canonical.print).toOption.any fun _ => true) = true := by
    decide +kernel
  obtain ⟨a, ha, hrun⟩ := exists_of_any_toOption hrun
  obtain ⟨m, hm, -⟩ := exists_of_any_toOption hrun
  obtain ⟨b, hb⟩ := compile_print_canonical ha hm
  exact ⟨a, b, ha, hb⟩

end Runic
