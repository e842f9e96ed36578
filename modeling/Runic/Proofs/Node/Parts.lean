import Mathlib.Data.List.Basic
import Mathlib.Tactic.Common
import Runic.Node

/-!
# Parts of trees

What is said of a tree node by node is said of the list of its parts.

* `Node.subtrees` — a tree and all trees inside of it; `Node.All` says something of each.
* `Node.expressions` — those of them that are expressions.  What `=/` binds is a name and not an
  expression, so neither the name nor anything inside of it is one.
-/

namespace Runic

namespace Node

mutual

/-- A tree and all trees inside of it, the tree itself first. -/
def subtrees : Node → List Node
  | buc span => [buc span]
  | pat span => [pat span]
  | dot span => [dot span]
  | face name span => [face name span]
  | faced label value span => faced label value span :: subtrees value
  | num digits span => [num digits span]
  | rune r args span => rune r args span :: subtreesAll args
  | cell head tail span => cell head tail span :: (subtrees head ++ subtrees tail)

/-- The subtrees of all trees of a list. -/
def subtreesAll : List Node → List Node
  | [] => []
  | node :: nodes => subtrees node ++ subtreesAll nodes

end

lemma mem_subtrees (n : Node) : n ∈ n.subtrees := by
  cases n <;> simp [subtrees]

lemma mem_subtreesAll {m : Node} {nodes : List Node} :
    m ∈ subtreesAll nodes ↔ ∃ n ∈ nodes, m ∈ n.subtrees := by
  induction nodes with
  | nil => simp [subtreesAll]
  | cons node nodes ih => simp [subtreesAll, ih]

lemma mem_subtrees_of_mem_args {r : Rune} {args : List Node} {span : Span} {arg : Node}
    (h : arg ∈ args) : arg ∈ (rune r args span).subtrees :=
  List.mem_cons_of_mem _ (mem_subtreesAll.2 ⟨arg, h, arg.mem_subtrees⟩)

/-- A subtree of a subtree of `n` is a subtree of `n`. -/
lemma mem_subtrees_trans {k c n : Node} (hk : k ∈ c.subtrees) (hc : c ∈ n.subtrees) :
    k ∈ n.subtrees := by
  induction n using Node.induction with
  | buc | pat | dot | face | num =>
      simp only [subtrees, List.mem_singleton] at hc
      rwa [hc] at hk
  | faced label value span ih =>
      rw [subtrees, List.mem_cons] at hc
      rcases hc with rfl | hc
      · exact hk
      · exact List.mem_cons_of_mem _ (ih hc)
  | cell head tail span ihHead ihTail =>
      rw [subtrees, List.mem_cons, List.mem_append] at hc
      rcases hc with rfl | hc | hc
      · exact hk
      · exact List.mem_cons_of_mem _ (List.mem_append_left _ (ihHead hc))
      · exact List.mem_cons_of_mem _ (List.mem_append_right _ (ihTail hc))
  | rune r args span ih =>
      rw [subtrees, List.mem_cons, mem_subtreesAll] at hc
      rcases hc with rfl | ⟨arg, harg, hc⟩
      · exact hk
      · exact List.mem_cons_of_mem _ (mem_subtreesAll.2 ⟨arg, harg, ih arg harg hc⟩)

/-! ## What holds of every node -/

/-- The property `p` holds of the tree and of all trees inside of it. -/
def All (p : Node → Prop) (n : Node) : Prop := ∀ k ∈ n.subtrees, p k

section

variable {p : Node → Prop} {name digits label : String} {value head tail : Node} {r : Rune}
  {args : List Node} {span : Span}

@[simp] lemma all_buc : (buc span).All p ↔ p (buc span) := List.forall_mem_singleton

@[simp] lemma all_pat : (pat span).All p ↔ p (pat span) := List.forall_mem_singleton

@[simp] lemma all_dot : (dot span).All p ↔ p (dot span) := List.forall_mem_singleton

@[simp] lemma all_face : (face name span).All p ↔ p (face name span) := List.forall_mem_singleton

@[simp] lemma all_num : (num digits span).All p ↔ p (num digits span) := List.forall_mem_singleton

@[simp] lemma all_faced :
    (faced label value span).All p ↔ p (faced label value span) ∧ value.All p :=
  List.forall_mem_cons

@[simp] lemma all_cell :
    (cell head tail span).All p ↔ p (cell head tail span) ∧ head.All p ∧ tail.All p :=
  List.forall_mem_cons.trans (and_congr_right fun _ => List.forall_mem_append)

@[simp] lemma all_rune :
    (rune r args span).All p ↔ p (rune r args span) ∧ ∀ arg ∈ args, arg.All p := by
  refine List.forall_mem_cons.trans (and_congr_right fun _ => ?_)
  simp only [mem_subtreesAll]
  exact ⟨fun h arg harg k hk => h k ⟨arg, harg, hk⟩, fun h k ⟨arg, harg, hk⟩ => h arg harg k hk⟩

end

/-! ## Expressions -/

mutual

/-- A tree and all trees inside of it that are evaluated: all but the names of bindings. -/
def expressions : Node → List Node
  | faced label value span => faced label value span :: expressions value
  | rune .tisfas (name :: args) span => rune .tisfas (name :: args) span :: expressionsAll args
  | rune r args span => rune r args span :: expressionsAll args
  | cell head tail span => cell head tail span :: (expressions head ++ expressions tail)
  | leaf => [leaf]

/-- The expressions of all trees of a list. -/
def expressionsAll : List Node → List Node
  | [] => []
  | node :: nodes => expressions node ++ expressionsAll nodes

end

lemma mem_expressions (n : Node) : n ∈ n.expressions := by
  unfold expressions
  split <;> simp

lemma mem_expressionsAll {m : Node} {nodes : List Node} :
    m ∈ expressionsAll nodes ↔ ∃ n ∈ nodes, m ∈ n.expressions := by
  induction nodes with
  | nil => simp [expressionsAll]
  | cons node nodes ih => simp [expressionsAll, ih]

/-- The arguments of a rune other than `=/` are expressions. -/
lemma expressions_rune {r : Rune} (h : r ≠ .tisfas) (args : List Node) (span : Span) :
    (rune r args span).expressions = rune r args span :: expressionsAll args := by
  rw [expressions]
  rintro _ _ rfl _
  exact h rfl

/-- The arguments of a rune that are expressions: for `=/`, all but the name. -/
def operands : Rune → List Node → List Node
  | .tisfas, _ :: args => args
  | _, args => args

lemma expressions_eq (r : Rune) (args : List Node) (span : Span) :
    (rune r args span).expressions = rune r args span :: expressionsAll (operands r args) := by
  unfold operands
  split
  · rw [expressions]
  · next hargs =>
      rw [expressions]
      rintro name rest rfl rfl
      exact hargs name rest rfl rfl

lemma mem_of_mem_operands {r : Rune} {args : List Node} {arg : Node} (h : arg ∈ operands r args) :
    arg ∈ args := by
  unfold operands at h
  split at h
  · exact List.mem_cons_of_mem _ h
  · exact h

/-- A property holds of all expressions of a list exactly if it holds of those of each tree. -/
lemma forall_expressionsAll {p : Node → Prop} {nodes : List Node} :
    (∀ k ∈ expressionsAll nodes, p k) ↔ ∀ n ∈ nodes, ∀ k ∈ n.expressions, p k := by
  simp only [mem_expressionsAll]
  exact ⟨fun h n hn k hk => h k ⟨n, hn, hk⟩, fun h k ⟨n, hn, hk⟩ => h n hn k hk⟩

/-- The expressions of a tree are subtrees of it. -/
lemma mem_subtrees_of_mem_expressions {n k : Node} (h : k ∈ n.expressions) : k ∈ n.subtrees := by
  induction n using Node.induction with
  | buc | pat | dot | face | num => simpa [expressions, subtrees] using h
  | faced label value span ih =>
      rw [expressions, List.mem_cons] at h
      rw [subtrees, List.mem_cons]
      exact h.imp_right ih
  | cell head tail span ihHead ihTail =>
      rw [expressions, List.mem_cons, List.mem_append] at h
      rw [subtrees, List.mem_cons, List.mem_append]
      exact h.imp_right (Or.imp ihHead ihTail)
  | rune r args span ih =>
      rw [expressions_eq, List.mem_cons, mem_expressionsAll] at h
      rw [subtrees, List.mem_cons, mem_subtreesAll]
      refine h.imp_right ?_
      rintro ⟨arg, harg, hk⟩
      exact ⟨arg, mem_of_mem_operands harg, ih arg (mem_of_mem_operands harg) hk⟩

/-- An expression of an expression of `n` is an expression of `n`. -/
lemma mem_expressions_trans {k c n : Node} (hk : k ∈ c.expressions) (hc : c ∈ n.expressions) :
    k ∈ n.expressions := by
  induction n using Node.induction with
  | buc | pat | dot | face | num =>
      simp only [expressions, List.mem_singleton] at hc
      rwa [hc] at hk
  | faced label value span ih =>
      rw [expressions, List.mem_cons] at hc
      rcases hc with rfl | hc
      · exact hk
      · exact List.mem_cons_of_mem _ (ih hc)
  | cell head tail span ihHead ihTail =>
      rw [expressions, List.mem_cons, List.mem_append] at hc
      rcases hc with rfl | hc | hc
      · exact hk
      · exact List.mem_cons_of_mem _ (List.mem_append_left _ (ihHead hc))
      · exact List.mem_cons_of_mem _ (List.mem_append_right _ (ihTail hc))
  | rune r args span ih =>
      rw [expressions_eq, List.mem_cons, mem_expressionsAll] at hc
      rcases hc with rfl | ⟨arg, harg, hc⟩
      · exact hk
      · rw [expressions_eq]
        exact List.mem_cons_of_mem _
          (mem_expressionsAll.2 ⟨arg, harg, ih arg (mem_of_mem_operands harg) hc⟩)

/-- An operand of an application that is an expression of `n` is an expression of `n`. -/
lemma mem_expressions_of_mem_operands {r : Rune} {args : List Node} {span : Span} {arg n : Node}
    (harg : arg ∈ operands r args) (h : rune r args span ∈ n.expressions) :
    arg ∈ n.expressions := by
  refine mem_expressions_trans ?_ h
  rw [expressions_eq]
  exact List.mem_cons_of_mem _ (mem_expressionsAll.2 ⟨arg, harg, arg.mem_expressions⟩)

end Node

end Runic
