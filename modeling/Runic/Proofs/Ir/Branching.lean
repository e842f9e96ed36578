import Mathlib.Data.List.Nodup
import Runic.Proofs.Ir.Coherence

/-!
# Branches form a tree

A block that is closed by a branch gets two new blocks, side by side behind all others.  So from the
first block on the branches of a function make a full binary tree in which every block stands once.

* `Function.Spread` — the tree below a block, given by the list of its blocks.
* `Function.IsGrown` — the tree below the first block has every block of the function.  This is what
  the steps of the builder keep: `IsGrown.push`, `IsGrown.ret` and `IsGrown.fork`.
* `Function.TreeShaped` — what it comes to when all blocks are closed: a block returns, or branches
  forward to two blocks side by side, and every block but the first is branched to once.
-/

namespace Runic.Ir

/-- The blocks that a terminator branches to. -/
def Terminator.targets : Terminator → List BlockId
  | .ret _ => []
  | .condBr _ yes no => [yes, no]

namespace Function

/-! ## Trees of blocks -/

/-- The blocks that the terminator of a block branches to.  An open block and a return have none. -/
def targets (F : Function) (block : BlockId) : List BlockId :=
  ((F.blocks[block]?.bind Block.terminator).map Terminator.targets).getD []

/-- The blocks `blocks` are those of a tree of branches under `block`: every branch in it leads
forward to two blocks side by side. -/
inductive Spread (F : Function) : BlockId → List BlockId → Prop
  | leaf {block : BlockId} (last : F.targets block = []) : Spread F block [block]
  | fork {block yes : BlockId} {left right : List BlockId}
      (branch : F.targets block = [yes, yes + 1]) (forward : block < yes)
      (yesTree : Spread F yes left) (noTree : Spread F (yes + 1) right) :
      Spread F block (block :: (left ++ right))

/-- The blocks of the tree under the first block are all blocks of the function, each once. -/
def IsGrown (F : Function) : Prop :=
  ∃ blocks, F.Spread 0 blocks ∧ blocks.Perm (List.range F.blocks.length)

/-- The blocks of a finished function form a full binary tree under the first one. -/
structure TreeShaped (F : Function) : Prop where
  /-- A block returns, or it branches forward to two blocks side by side. -/
  ends : ∀ block < F.blocks.length, (∃ index value, F.Ends block index (.ret value)) ∨
    ∃ index cond yes, F.Ends block index (.condBr cond yes (yes + 1)) ∧ block < yes
  /-- Among the targets of all branches, every block stands once, except the first one. -/
  once : ∀ block < F.blocks.length,
    ((List.range F.blocks.length).flatMap F.targets).count block = if block = 0 then 0 else 1
  /-- Every block stands once in the tree below the first one. -/
  grown : F.IsGrown

section

variable {F F' : Function} {block b : BlockId} {B : Block} {blocks : List BlockId}

lemma targets_eq_nil (hB : F.blocks[block]? = some B) (ho : B.terminator = none) :
    F.targets block = [] := by
  simp [targets, hB, ho]

lemma targets_of_ends {index : Nat} {t : Terminator} (h : F.Ends block index t) :
    F.targets block = t.targets := by
  obtain ⟨B, hB, -, ht⟩ := h
  simp [targets, hB, ht]

lemma targets_push {op : Operation} : (F.push block op).targets b = F.targets b := by
  unfold targets
  by_cases hb : b = block
  · subst hb
    cases hB : F.blocks[b]? <;> simp [push, hB]
  · rw [push_block_ne hb]

lemma targets_ret {v : Value} (hB : F.blocks[block]? = some B) (ho : B.terminator = none) :
    (F.close block (.ret v)).targets b = F.targets b := by
  unfold targets
  by_cases hb : b = block
  · subst hb
    simp [close_block hB, hB, ho, Terminator.targets]
  · rw [close_block_ne hb]

/-- Opening a block leaves the targets of all blocks, and the new one has none. -/
lemma targets_open : F.open.targets b = F.targets b := by
  unfold targets
  by_cases hlt : b < F.blocks.length
  · rw [open_block (List.getElem?_eq_getElem hlt), List.getElem?_eq_getElem hlt]
  · rw [List.getElem?_eq_none (Nat.not_lt.1 hlt)]
    cases hC : F.open.blocks[b]? with
    | none => rfl
    | some C =>
        rcases open_getElem?.1 hC with hC | ⟨-, rfl⟩
        · exact absurd (List.getElem?_eq_some_iff.1 hC).1 hlt
        · rfl

/-- After `fork`, the block that is closed has the two new blocks as targets, and the targets of all
others are as before. -/
lemma targets_fork {cond : Value} (hB : F.blocks[block]? = some B) :
    (F.fork block cond).targets b =
      if b = block then [F.blocks.length, F.blocks.length + 1] else F.targets b := by
  have hopen : F.open.open.blocks[block]? = some B := open_block (open_block hB)
  by_cases hb : b = block
  · subst hb
    rw [if_pos rfl, targets, fork, close_block hopen]
    rfl
  · rw [if_neg hb, targets, fork, close_block_ne hb]
    exact targets_open.trans targets_open

/-! ## Growing -/

/-- If two functions have the same targets for all blocks of a tree, it is a tree of both. -/
lemma Spread.congr (h : F.Spread block blocks)
    (hsame : ∀ b ∈ blocks, F'.targets b = F.targets b) : F'.Spread block blocks := by
  induction h with
  | leaf last => exact .leaf ((hsame _ List.mem_cons_self).trans last)
  | fork branch forward _ _ ihYes ihNo =>
      simp only [List.mem_cons, List.mem_append] at hsame
      exact .fork ((hsame _ (.inl rfl)).trans branch) forward
        (ihYes fun b hb => hsame b (.inr (.inl hb))) (ihNo fun b hb => hsame b (.inr (.inr hb)))

/-- If a leaf of a tree becomes a fork with two new leaves, then the blocks of the tree are the old
ones and the two new ones. -/
lemma Spread.split {new : BlockId} (h : F.Spread b blocks) (hnodup : blocks.Nodup)
    (hmem : block ∈ blocks) (hleaf : F.targets block = []) (hlt : block < new)
    (hnew : F.targets new = [] ∧ F.targets (new + 1) = [])
    (hfork : ∀ c, F'.targets c = if c = block then [new, new + 1] else F.targets c) :
    ∃ blocks', F'.Spread b blocks' ∧ blocks'.Perm (blocks ++ [new, new + 1]) := by
  have hkeep : ∀ {c cs}, block ∉ cs → F.Spread c cs → F'.Spread c cs := by
    intro c cs hnot h
    refine h.congr fun d hd => ?_
    rw [hfork, if_neg (ne_of_mem_of_not_mem hd hnot)]
  induction h with
  | leaf _ =>
      obtain rfl := List.mem_singleton.1 hmem
      refine ⟨_, .fork ((hfork block).trans (if_pos rfl)) hlt (.leaf ?_) (.leaf ?_), .refl _⟩
      · rw [hfork, if_neg (Nat.ne_of_gt hlt), hnew.1]
      · rw [hfork, if_neg (Nat.ne_of_gt (Nat.lt_succ_of_lt hlt)), hnew.2]
  | @fork c yes left right branch forward yesTree noTree ihYes ihNo =>
      have hc : c ≠ block := by
        rintro rfl
        rw [hleaf] at branch
        cases branch
      have hbranch : F'.targets c = [yes, yes + 1] := by rw [hfork, if_neg hc, branch]
      obtain ⟨-, hsides⟩ := List.nodup_cons.1 hnodup
      have hdisjoint := List.disjoint_of_nodup_append hsides
      -- The leaf is on one side of the branch, and the other side stays as it is.
      rcases List.mem_append.1 ((List.mem_cons.1 hmem).resolve_left hc.symm) with hside | hside
      · obtain ⟨left', htree, hperm⟩ := ihYes hsides.of_append_left hside
        have hmove : (left' ++ right).Perm (left ++ (right ++ [new, new + 1])) := by
          refine (hperm.append_right right).trans ?_
          rw [List.append_assoc]
          exact List.perm_append_comm.append_left left
        refine ⟨_, .fork hbranch forward htree (hkeep (hdisjoint hside) noTree), ?_⟩
        rw [List.cons_append, List.append_assoc]
        exact hmove.cons c
      · obtain ⟨right', htree, hperm⟩ := ihNo hsides.of_append_right hside
        refine ⟨_, .fork hbranch forward (hkeep (fun h => hdisjoint h hside) yesTree) htree, ?_⟩
        rw [List.cons_append, List.append_assoc]
        exact (hperm.append_left left).cons c

lemma IsGrown.push {op : Operation} (h : F.IsGrown) : (F.push block op).IsGrown := by
  obtain ⟨blocks, htree, hperm⟩ := h
  refine ⟨blocks, htree.congr fun _ _ => targets_push, ?_⟩
  rwa [length_push]

lemma IsGrown.ret {v : Value} (h : F.IsGrown) (hB : F.blocks[block]? = some B)
    (ho : B.terminator = none) : (F.close block (.ret v)).IsGrown := by
  obtain ⟨blocks, htree, hperm⟩ := h
  refine ⟨blocks, htree.congr fun _ _ => targets_ret hB ho, ?_⟩
  rwa [length_close]

lemma IsGrown.fork {cond : Value} (h : F.IsGrown) (hB : F.blocks[block]? = some B)
    (ho : B.terminator = none) : (F.fork block cond).IsGrown := by
  obtain ⟨blocks, htree, hperm⟩ := h
  have hlt : block < F.blocks.length := (List.getElem?_eq_some_iff.1 hB).1
  have hmissing : ∀ c, F.blocks.length ≤ c → F.targets c = [] := by
    intro c hc
    rw [targets, List.getElem?_eq_none hc]
    rfl
  obtain ⟨blocks', htree', hperm'⟩ := htree.split (hperm.nodup_iff.2 List.nodup_range)
    (hperm.mem_iff.2 (List.mem_range.2 hlt)) (targets_eq_nil hB ho) hlt
    ⟨hmissing _ (Nat.le_refl _), hmissing _ (Nat.le_succ _)⟩ fun _ => targets_fork hB
  refine ⟨blocks', htree', ?_⟩
  rw [length_fork, List.range_succ, List.range_succ, List.append_assoc]
  exact hperm'.trans (hperm.append_right _)

/-- A function with one block is grown: the tree is the block itself. -/
lemma isGrown_new {linkage : Linkage} {params : List Param} {ret : Ty} :
    (⟨linkage, params, ret, [.empty], 0⟩ : Function).IsGrown :=
  ⟨[0], .leaf rfl, .refl _⟩

/-! ## Finished functions -/

/-- Of the blocks of a tree, all but the root are targets of branches, each of one branch. -/
lemma Spread.perm_targets (h : F.Spread block blocks) :
    (block :: blocks.flatMap F.targets).Perm blocks := by
  induction h with
  | leaf last => simp [last]
  | @fork c yes left right branch _ _ _ ihYes ihNo =>
      refine .cons c ?_
      rw [List.flatMap_cons, branch, List.flatMap_append]
      have hsides : (yes :: (yes + 1) :: (left.flatMap F.targets ++ right.flatMap F.targets)).Perm
          (yes :: (left.flatMap F.targets ++ (yes + 1) :: right.flatMap F.targets)) :=
        List.perm_middle.symm.cons yes
      exact hsides.trans (ihYes.append ihNo)

/-- A block of a tree has no targets, or two that stand side by side further down. -/
lemma Spread.targets_eq (h : F.Spread block blocks) : ∀ b ∈ blocks,
    F.targets b = [] ∨ ∃ yes, F.targets b = [yes, yes + 1] ∧ b < yes := by
  induction h with
  | leaf last =>
      intro b hb
      rw [List.mem_singleton.1 hb]
      exact .inl last
  | @fork c yes left right branch forward _ _ ihYes ihNo =>
      intro b hb
      rcases List.mem_cons.1 hb with rfl | hb
      · exact .inr ⟨yes, branch, forward⟩
      · exact (List.mem_append.1 hb).elim (ihYes b) (ihNo b)

/-- **A grown function whose blocks are all closed is `TreeShaped`.** -/
theorem IsGrown.treeShaped (h : F.IsGrown)
    (closed : ∀ block < F.blocks.length, ∃ index t, F.Ends block index t) : F.TreeShaped := by
  obtain ⟨blocks, htree, hperm⟩ := h
  refine ⟨fun block hblock => ?_, fun block hblock => ?_, blocks, htree, hperm⟩
  · obtain ⟨index, t, hend⟩ := closed block hblock
    cases t with
    | ret value => exact .inl ⟨index, value, hend⟩
    | condBr cond yes no =>
        have hmem : block ∈ blocks := hperm.mem_iff.2 (List.mem_range.2 hblock)
        have htargets := htree.targets_eq block hmem
        rw [targets_of_ends hend, Terminator.targets] at htargets
        rcases htargets with hnone | ⟨_, hsides, hlt⟩
        · cases hnone
        · cases hsides
          exact .inr ⟨index, cond, yes, hend, hlt⟩
  · have hall : (0 :: (List.range F.blocks.length).flatMap F.targets).Perm
        (List.range F.blocks.length) :=
      ((hperm.symm.flatMap_right F.targets).cons 0).trans (htree.perm_targets.trans hperm)
    have hcount := hall.count_eq block
    rw [List.count_cons, List.count_eq_one_of_mem List.nodup_range (List.mem_range.2 hblock)]
      at hcount
    by_cases hzero : block = 0
    · subst hzero
      simpa using hcount
    · have hne : ((0 : Nat) == block) = false := by simpa using Ne.symm hzero
      simpa [hzero, hne] using hcount

end

end Function

end Runic.Ir
