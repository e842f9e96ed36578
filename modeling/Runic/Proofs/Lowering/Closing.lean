import Runic.Proofs.Lowering.Typing

/-!
# Which blocks are closed

A tree is lowered into an open block.  Only a conditional closes it, and every other block that is
opened on the way is closed again.

* `Lowers.ending` — the block is closed if and only if no operand is left, and that is so exactly
  for the trees that end in a conditional (`Node.isBranch`).
* `Module.Settled` — every function has a block, and no block is open but those that are due.
  Lowering a tree leaves no more blocks open than there were (`Lowers.settled`), and lowering a body
  one less (`LowersBody.settled`).
* `Module.Coherent.verify` — **code that is coherent and settled passes verification.**
-/

namespace Runic

open Ir

/-- The tree ends in a conditional, which may stand under bindings and labels. -/
def Node.isBranch : Node → Bool
  | .rune .wutcol _ _ => true
  | .rune .tisfas [_, _, body] _ => body.isBranch
  | .faced _ value _ => value.isBranch
  | _ => false

namespace Ir.Module

/-! ## Open and closed blocks -/

/-- The block of the function exists and has no terminator. -/
def IsOpen (m : Module) (func : FuncId) (block : BlockId) : Prop :=
  ∃ F B, m.functions[func]? = some F ∧ F.blocks[block]? = some B ∧ B.terminator = none

/-- The block of the function exists and has a terminator. -/
def IsClosed (m : Module) (func : FuncId) (block : BlockId) : Prop :=
  ∃ F B, m.functions[func]? = some F ∧ F.blocks[block]? = some B ∧ B.terminator ≠ none

section

variable {m m' : Module} {func f : FuncId} {block b : BlockId}

lemma IsOpen.not_isClosed (h : m.IsOpen func block) : ¬ m.IsClosed func block := by
  obtain ⟨F, B, hF, hB, ho⟩ := h
  rintro ⟨F', B', hF', hB', hc⟩
  rw [hF, Option.some.injEq] at hF'
  subst hF'
  rw [hB, Option.some.injEq] at hB'
  subst hB'
  exact hc ho

lemma IsClosed.grows (h : m.IsClosed func block) (hg : m.Grows m') : m'.IsClosed func block := by
  obtain ⟨F, B, hF, hB, hc⟩ := h
  obtain ⟨F', hF', hgF⟩ := hg _ _ hF
  obtain ⟨B', hB', hgB⟩ := hgF.blocks _ _ hB
  exact ⟨F', B', hF', hB', hgB.closed hc ▸ hc⟩

/-- If the module grows at one block, then other blocks that were open stay open. -/
lemma IsOpen.elsewhere (h : m.IsOpen f b) (hg : m.GrowsAt func block m')
    (hne : f = func → b ≠ block) : m'.IsOpen f b := by
  obtain ⟨F, B, hF, hB, ho⟩ := h
  by_cases hf : f = func
  · subst hf
    obtain ⟨F', hF', -⟩ := hg.grows _ _ hF
    exact ⟨F', B, hF', hg.blocks F F' b B hF hF' (hne rfl) hB, ho⟩
  · exact ⟨F, B, hg.function f F hf hF, hB, ho⟩

lemma IsOpen.func_lt (h : m.IsOpen func block) : func < m.functions.length := by
  obtain ⟨F, B, hF, -, -⟩ := h
  exact (List.getElem?_eq_some_iff.1 hF).1

lemma isOpen_withInternal (m : Module) (params : List Param) (ret : Ty) :
    (m.withInternal params ret).IsOpen m.functions.length 0 :=
  ⟨_, .empty, m.withInternal_function params ret, rfl, rfl⟩

lemma isOpen_of_append {op : Operation} {v : Value}
    (h : Build.append func block op m = (.ok v, m')) : m'.IsOpen func block := by
  obtain ⟨F, B, hF, hB, ho, -, rfl⟩ := Build.append_eq_ok.1 h
  exact ⟨_, _, put_function hF, Function.push_block hB, ho⟩

lemma isClosed_of_terminate {t : Terminator}
    (h : Build.terminate func block t m = (.ok (), m')) : m'.IsClosed func block := by
  obtain ⟨F, B, hF, hB, -, rfl⟩ := Build.terminate_eq_ok.1 h
  exact ⟨_, _, put_function hF, Function.close_block hB, by simp⟩

end

/-! ## Settled modules -/

/-- Every function has a block, and every open block is `due` to be closed. -/
def Settled (m : Module) (due : FuncId → BlockId → Prop) : Prop :=
  ∀ f F, m.functions[f]? = some F → F.blocks ≠ [] ∧
    ∀ b B, F.blocks[b]? = some B → B.terminator = none → due f b

section

variable {m m' : Module} {func : FuncId} {block : BlockId} {due : FuncId → BlockId → Prop}

lemma Settled.mono {due' : FuncId → BlockId → Prop} (h : m.Settled due)
    (himp : ∀ f b, m.IsOpen f b → due f b → due' f b) : m.Settled due' := by
  intro f F hF
  obtain ⟨hne, hopen⟩ := h f F hF
  exact ⟨hne, fun b B hB ho => himp f b ⟨F, B, hF, hB, ho⟩ (hopen b B hB ho)⟩

/-- Changing one function of a settled module leaves it settled, if the open blocks of the new
function are due. -/
lemma Settled.put {F F' : Function} {due' : FuncId → BlockId → Prop} (h : m.Settled due)
    (hF : m.functions[func]? = some F) (hne : F'.blocks ≠ [])
    (hopen : ∀ b B, F'.blocks[b]? = some B → B.terminator = none → due' func b)
    (hdue : ∀ f b, f ≠ func → due f b → due' f b) : (m.put func F').Settled due' := by
  intro f G hG
  by_cases hf : f = func
  · subst hf
    rw [put_function hF, Option.some.injEq] at hG
    subst hG
    exact ⟨hne, hopen⟩
  · rw [put_function_ne hf] at hG
    obtain ⟨hGne, hGopen⟩ := h f G hG
    exact ⟨hGne, fun b B hB ho => hdue f b hf (hGopen b B hB ho)⟩

lemma Settled.append {op : Operation} {v : Value} (h : m.Settled due)
    (happ : Build.append func block op m = (.ok v, m')) : m'.Settled due := by
  obtain ⟨F, B, hF, hB, ho, -, rfl⟩ := Build.append_eq_ok.1 happ
  obtain ⟨hne, hopen⟩ := h func F hF
  refine h.put hF (by simpa [Function.push] using hne) ?_ fun _ _ _ hdue => hdue
  intro b C hC hCo
  by_cases hb : b = block
  · exact hb ▸ hopen block B hB ho
  · rw [Function.push_block_ne hb] at hC
    exact hopen b C hC hCo

/-- After `terminate`, the closed block is no longer due. -/
lemma Settled.terminate {t : Terminator} (h : m.Settled due)
    (hterm : Build.terminate func block t m = (.ok (), m')) :
    m'.Settled fun f b => due f b ∧ ¬ (f = func ∧ b = block) := by
  obtain ⟨F, B, hF, hB, -, rfl⟩ := Build.terminate_eq_ok.1 hterm
  obtain ⟨hne, hopen⟩ := h func F hF
  refine h.put hF (by simpa [Function.close] using hne) ?_ fun f b hf hdue => ⟨hdue, by simp [hf]⟩
  intro b C hC hCo
  by_cases hb : b = block
  · subst hb
    rw [Function.close_block hB, Option.some.injEq] at hC
    subst hC
    cases hCo
  · rw [Function.close_block_ne hb] at hC
    exact ⟨hopen b C hC hCo, by simp [hb]⟩

/-- After opening a block, it is due. -/
lemma Settled.open {F : Function} (h : m.Settled due) (hF : m.functions[func]? = some F) :
    (m.put func F.open).Settled fun f b => due f b ∨ (f = func ∧ b = F.blocks.length) := by
  obtain ⟨-, hopen⟩ := h func F hF
  refine h.put hF (by simp [Function.open]) ?_ fun f b _ hdue => .inl hdue
  intro b B hB ho
  rcases Function.open_getElem?.1 hB with hB | ⟨hb, -⟩
  · exact .inl (hopen b B hB ho)
  · exact .inr ⟨rfl, hb⟩

/-- After declaring an internal function, its block is due. -/
lemma Settled.withInternal (h : m.Settled due) (params : List Param) (ret : Ty) :
    (m.withInternal params ret).Settled fun f b =>
      due f b ∨ (f = m.functions.length ∧ b = 0) := by
  intro f F hF
  by_cases hf : f < m.functions.length
  · have hold : m.functions[f]? = some F := by
      simpa [Module.withInternal, List.getElem?_append_left hf] using hF
    obtain ⟨hne, hopen⟩ := h f F hold
    exact ⟨hne, fun b B hB ho => .inl (hopen b B hB ho)⟩
  · have hlt : f < m.functions.length + 1 := by
      simpa [Module.withInternal] using (List.getElem?_eq_some_iff.1 hF).1
    obtain rfl : f = m.functions.length :=
      Nat.le_antisymm (Nat.le_of_lt_succ hlt) (Nat.not_lt.1 hf)
    rw [withInternal_function, Option.some.injEq] at hF
    subst hF
    refine ⟨by simp, fun b B hB _ => .inr ⟨rfl, ?_⟩⟩
    exact Nat.lt_one_iff.1 (List.getElem?_eq_some_iff.1 hB).1

lemma settled_withEntry (name : String) (ret : Ty) :
    (Module.withEntry name ret).Settled fun f b => f = 0 ∧ b = 0 := by
  intro f F hF
  obtain rfl : f = 0 := Nat.lt_one_iff.1 (List.getElem?_eq_some_iff.1 hF).1
  cases hF
  refine ⟨by simp, fun b B hB _ => ⟨rfl, ?_⟩⟩
  exact Nat.lt_one_iff.1 (List.getElem?_eq_some_iff.1 hB).1

end

/-- **A coherent module in which no block is due passes `verify`.** -/
theorem Coherent.verify {m : Module} {atom : Ty} (h : m.Coherent atom)
    (hs : m.Settled fun _ _ => False) : m.verify = .ok () := by
  have hfunction : ∀ F ∈ m.functions, F.fault? m = none := by
    intro F hF
    obtain ⟨f, hf⟩ := List.mem_iff_getElem?.1 hF
    obtain ⟨hne, hclosed⟩ := hs f F hf
    have hc := h F hF
    rw [Function.fault?, if_neg hne, List.findSome?_eq_none_iff]
    rintro ⟨B, b⟩ hmem
    have hB := List.mk_mem_zipIdx_iff_getElem?.1 hmem
    rw [Option.or_eq_none_iff, List.findSome?_eq_none_iff]
    constructor
    · cases ht : B.terminator with
      | none => exact (hclosed b B hB ht).elim
      | some t =>
          have typed := hc.terminators ⟨B, hB, rfl, ht⟩
          cases typed with
          | ret value => simp [Function.terminatorFault?, ht]
          | condBr truth yesBlock noBlock =>
              simp [Function.terminatorFault?, ht, yesBlock, noBlock]
    · intro inst hinst
      obtain ⟨i, hi⟩ := List.mem_iff_getElem?.1 hinst
      have typed := hc.operations ⟨B, hB, hi⟩
      unfold Inst.fault?
      cases hop : inst.operation with
      | call callee ret args =>
          rw [hop] at typed
          cases typed with
          | call known _ _ => simp [(List.getElem?_eq_some_iff.1 known).1]
      | _ => rfl
  rw [Module.verify, Module.fault?, List.findSome?_eq_none_iff.2 hfunction]

end Ir.Module

namespace Lowering

/-! ## How a tree leaves its block -/

/-- What holds of the block once a tree is lowered: it is open and there is an operand, or the tree
`isBranch` and has closed it. -/
def Ending (node : Node) (site : Site) (m : Module) : Option Value → Prop
  | some _ => m.IsOpen site.func site.block ∧ node.isBranch = false
  | none => m.IsClosed site.func site.block ∧ node.isBranch = true

section

variable {m m' : Module} {site : Site} {σ : Subject}

lemma isOpen_of_widen {span : Span} {v a : Value} (ho : m.IsOpen site.func site.block)
    (h : widen site span v m = (.ok a, m')) : m'.IsOpen site.func site.block := by
  rcases widen_eq_ok.1 h with ⟨-, happ⟩ | ⟨-, -, -, rfl⟩
  · exact Module.isOpen_of_append happ
  · exact ho

/-- Both targets of the branch that closes a block are open. -/
lemma isOpen_of_branch {func : FuncId} {block b : BlockId} {cond : Value} {F : Function}
    (ho : m.IsOpen func block) (hF : m.functions[func]? = some F)
    (h : Build.terminate func block (.condBr cond F.blocks.length (F.blocks.length + 1))
      (m.put func F.open.open) = (.ok (), m'))
    (hb : b = F.blocks.length ∨ b = F.blocks.length + 1) : m'.IsOpen func b := by
  obtain ⟨F', B, hF', hB, -⟩ := ho
  rw [hF, Option.some.injEq] at hF'
  subst hF'
  obtain ⟨-, rfl⟩ := Build.terminate_fork hF hB h
  exact ⟨_, .empty, Module.put_function hF, Function.fork_block_new hB hb, rfl⟩

/-- Building another function leaves the block of `site` open. -/
lemma isOpen_of_inner {params : List Param} {node : Node}
    (ho : m.IsOpen site.func site.block)
    (h : LowersBody node σ (entrySite site.atom m.functions.length)
      (m.withInternal params site.atom) m') : m'.IsOpen site.func site.block := by
  have hlt := ho.func_lt
  have hdeclared := ho.elsewhere
    (Module.growsAt_withInternal m m.functions.length 0 params site.atom)
    fun heq => absurd hlt (heq ▸ Nat.lt_irrefl _)
  exact hdeclared.elsewhere h.growsAt fun heq => absurd hlt (heq ▸ Nat.lt_irrefl _)

end

/-- **Lowering closes its block and leaves no operand exactly for the trees that end in a
conditional.** -/
theorem Lowers.ending {node : Node} {σ : Subject} {site : Site} {m m' : Module}
    {r : Option Value} (ho : m.IsOpen site.func site.block) :
    Lowers node σ site m r m' → Ending node site m' r
  | .num _ | .face _ | .buc => ⟨ho, rfl⟩
  | .faced body => by
      have h := body.ending ho
      cases r <;> exact h
  | .dottis _ app | .dotlus _ app | .unary _ _ _ app | .binary _ _ _ app
  | .barhep _ _ app | .cenhep _ _ _ _ _ app | .centis _ _ _ _ _ app =>
      ⟨Module.isOpen_of_append app, rfl⟩
  | .tisfas bound rest => by
      have h := rest.ending (bound.ending ho).1
      cases r <;> exact h
  | .wutcol _ _ _ branch then_ else_ =>
      ⟨(Module.isClosed_of_terminate branch).grows (then_.growsAt.grows.trans else_.growsAt.grows),
        rfl⟩
  | .bartis _ gate => ⟨isOpen_of_inner ho gate, rfl⟩

lemma LowersCallee.isOpen {target : Node} {σ : Subject} {site : Site} {m m' : Module}
    {callee : FuncId} (ho : m.IsOpen site.func site.block)
    (h : LowersCallee target σ site m callee m') : m'.IsOpen site.func site.block := by
  cases h with
  | here | named => exact ho
  | computed value => exact (value.ending ho).1

/-! ## What is left open -/

section

variable {m m' : Module} {site : Site} {due : FuncId → BlockId → Prop}

lemma settled_of_widen {span : Span} {v a : Value} (hs : m.Settled due)
    (h : widen site span v m = (.ok a, m')) : m'.Settled due := by
  rcases widen_eq_ok.1 h with ⟨-, happ⟩ | ⟨-, -, -, rfl⟩
  · exact hs.append happ
  · exact hs

/-- After a branch, its block is no longer due, and its two targets are. -/
lemma settled_of_branch {cond : Value} {F : Function} (hs : m.Settled due)
    (hF : m.functions[site.func]? = some F)
    (h : Build.terminate site.func site.block
      (.condBr cond F.blocks.length (F.blocks.length + 1)) (m.put site.func F.open.open) =
        (.ok (), m')) :
    m'.Settled fun f b => due f b ∨ (f = site.func ∧ b = F.blocks.length) ∨
      (f = site.func ∧ b = F.blocks.length + 1) := by
  have hopen := (hs.open hF).open (Module.put_function hF)
  rw [Module.put_put, Function.length_open] at hopen
  refine (hopen.terminate h).mono ?_
  rintro f b - ⟨(hdue | hfirst) | hsecond, -⟩
  · exact .inl hdue
  · exact .inr (.inl hfirst)
  · exact .inr (.inr hsecond)

/-- After `finish`, the block of `site` is no longer due: it is closed there, or the tree has closed
it. -/
lemma settled_of_finish {node : Node} {span : Span} {r : Option Value} (hs : m.Settled due)
    (hending : Ending node site m r) (h : finish site span r m = (.ok (), m')) :
    m'.Settled fun f b => due f b ∧ ¬ (f = site.func ∧ b = site.block) := by
  rcases finish_eq_ok.1 h with ⟨rfl, rfl⟩ | ⟨v, a, m₁, rfl, hw, ht⟩
  · refine hs.mono ?_
    rintro f b hopen hdue
    refine ⟨hdue, ?_⟩
    rintro ⟨rfl, rfl⟩
    exact hopen.not_isClosed hending.1
  · exact (settled_of_widen hs hw).terminate ht

end

mutual

/-- **Lowering a tree into an open block leaves the same blocks due.** -/
theorem Lowers.settled {node : Node} {σ : Subject} {site : Site} {m m' : Module}
    {r : Option Value} {due : FuncId → BlockId → Prop} (ho : m.IsOpen site.func site.block)
    (hs : m.Settled due) : Lowers node σ site m r m' → m'.Settled due
  | .num _ | .face _ | .buc => hs
  | .faced body => body.settled ho hs
  | .dottis args app | .dotlus args app | .unary _ _ args app | .binary _ _ args app =>
      (args.settled ho hs).append app
  | .tisfas bound rest => rest.settled (bound.ending ho).1 (bound.settled ho hs)
  | .wutcol condition _ func branch then_ else_ => by
      have ho₁ := (condition.ending ho).1
      have hs₂ := settled_of_branch (condition.settled ho hs) func branch
      have hyes := isOpen_of_branch ho₁ func branch (.inl rfl)
      have hno := (isOpen_of_branch ho₁ func branch (.inr rfl)).elsewhere then_.growsAt
        fun _ => Nat.succ_ne_self _
      refine (else_.settled (by exact hno) (then_.settled (by exact hyes) hs₂)).mono ?_
      rintro f b - ⟨⟨hdue | hfirst | hsecond, hnot⟩, hnot'⟩
      · exact hdue
      · exact absurd hfirst hnot
      · exact absurd hsecond hnot'
  | .barhep trap args app => by
      have hinner := trap.settled (Module.isOpen_withInternal _ _ _) (hs.withInternal _ site.atom)
      have hs₁ : Module.Settled _ due := hinner.mono fun f b _ h => h.1.resolve_right h.2
      exact (args.settled (isOpen_of_inner ho trap) hs₁).append app
  | .bartis _ gate => by
      have hinner := gate.settled (Module.isOpen_withInternal _ _ _) (hs.withInternal _ site.atom)
      exact hinner.mono fun f b _ h => h.1.resolve_right h.2
  | .cenhep _ head _ _ sources app =>
      (sources.settled (head.isOpen ho) (head.settled ho hs)).append app
  | .centis _ _ _ _ sources app => (sources.settled ho hs).append app

theorem LowersArgs.settled {sources : List Source} {σ : Subject} {site : Site} {m m' : Module}
    {as : List Value} {due : FuncId → BlockId → Prop} (ho : m.IsOpen site.func site.block)
    (hs : m.Settled due) : LowersArgs sources σ site m as m' → m'.Settled due
  | .nil => hs
  | .tree value atom others =>
      others.settled (isOpen_of_widen (value.ending ho).1 atom)
        (settled_of_widen (value.settled ho hs) atom)
  | .face _ atom others => others.settled (isOpen_of_widen ho atom) (settled_of_widen hs atom)

/-- After a body is lowered, its own block is no longer due. -/
theorem LowersBody.settled {node : Node} {σ : Subject} {site : Site} {m m' : Module}
    {due : FuncId → BlockId → Prop} (ho : m.IsOpen site.func site.block) (hs : m.Settled due) :
    LowersBody node σ site m m' →
      m'.Settled fun f b => due f b ∧ ¬ (f = site.func ∧ b = site.block)
  | .mk body fin => settled_of_finish (body.settled ho hs) (body.ending ho) fin

theorem LowersCallee.settled {target : Node} {σ : Subject} {site : Site} {m m' : Module}
    {callee : FuncId} {due : FuncId → BlockId → Prop} (ho : m.IsOpen site.func site.block)
    (hs : m.Settled due) : LowersCallee target σ site m callee m' → m'.Settled due
  | .here _ | .named _ => hs
  | .computed value => value.settled ho hs

end

/-- **A body that is lowered in the first block of an exported function makes a module that passes
`verify`.** -/
theorem LowersBody.verify {node : Node} {atom : Ty} {entry : String} {m : Module}
    (h : LowersBody node .empty (entrySite atom 0) (.withEntry entry atom) m) :
    m.verify = .ok () := by
  have hopen : (Module.withEntry entry atom).IsOpen 0 0 := ⟨_, .empty, rfl, rfl, rfl⟩
  have hcoherent : m.Coherent atom := h.coherent (.entry atom entry)
  refine hcoherent.verify ((h.settled hopen (Module.settled_withEntry entry atom)).mono ?_)
  rintro f b - ⟨hdue, hnot⟩
  exact hnot hdue

end Lowering

end Runic
