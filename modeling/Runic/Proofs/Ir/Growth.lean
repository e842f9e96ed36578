import Mathlib.Data.List.Basic
import Mathlib.Tactic.Common
import Runic.Ir.Builder

/-!
# How a module grows

Building never takes anything back: what a block, a function or a module holds at one time is
still there at any later time.  This file says what each step of the builder does to a module
(`append_eq_ok`, `terminate_eq_ok`, `addBlock_eq_ok`), and what all of them have in common.

* `Module.Grows` — the later module has every function of the earlier one, with the same head, and
  every block, with its instructions in front; a closed block is as it was.
* `Module.GrowsAt` — the same, and of the functions and blocks that were there before only one
  block of one function has changed.

`Module.GrowsAt.within` is how the second composes: a change to a block that is new, or to a
function that is new, is no change to what was there before.
-/

namespace Runic.Ir

/-! ## Growing -/

/-- The block `B'` has the instructions of `B` in front, and is `B` itself if that was closed. -/
structure Block.Grows (B B' : Block) : Prop where
  insts : B.insts <+: B'.insts
  closed : B.terminator ≠ none → B' = B

lemma Block.Grows.refl (B : Block) : B.Grows B := ⟨List.prefix_rfl, fun _ => rfl⟩

lemma Block.Grows.trans {B₁ B₂ B₃ : Block} (h : B₁.Grows B₂) (h' : B₂.Grows B₃) : B₁.Grows B₃ := by
  refine ⟨h.insts.trans h'.insts, fun hc => ?_⟩
  have h₁ := h.closed hc
  subst h₁
  exact h'.closed hc

/-- The function `F'` has the head of `F`, and its blocks in their places, each of them grown. -/
structure Function.Grows (F F' : Function) : Prop where
  linkage : F'.linkage = F.linkage
  params : F'.params = F.params
  ret : F'.ret = F.ret
  nextInst : F.nextInst ≤ F'.nextInst
  blocks : ∀ (b : BlockId) (B : Block), F.blocks[b]? = some B →
    ∃ B', F'.blocks[b]? = some B' ∧ B.Grows B'

lemma Function.Grows.refl (F : Function) : F.Grows F :=
  ⟨rfl, rfl, rfl, Nat.le_refl _, fun _ B h => ⟨B, h, .refl B⟩⟩

lemma Function.Grows.trans {F₁ F₂ F₃ : Function} (h : F₁.Grows F₂) (h' : F₂.Grows F₃) :
    F₁.Grows F₃ := by
  refine ⟨h'.linkage.trans h.linkage, h'.params.trans h.params, h'.ret.trans h.ret,
    Nat.le_trans h.nextInst h'.nextInst, fun b B hB => ?_⟩
  obtain ⟨B₂, hB₂, hg⟩ := h.blocks b B hB
  obtain ⟨B₃, hB₃, hg'⟩ := h'.blocks b B₂ hB₂
  exact ⟨B₃, hB₃, hg.trans hg'⟩

lemma Function.Grows.length_le {F F' : Function} (h : F.Grows F') :
    F.blocks.length ≤ F'.blocks.length := by
  by_contra hlt
  obtain ⟨B, hB⟩ : ∃ B, F.blocks[F'.blocks.length]? = some B :=
    ⟨_, List.getElem?_eq_getElem (by omega)⟩
  obtain ⟨B', hB', _⟩ := h.blocks _ _ hB
  simp at hB'

/-- The module `m'` has the functions of `m` in their places, each of them grown. -/
def Module.Grows (m m' : Module) : Prop :=
  ∀ (f : FuncId) (F : Function), m.functions[f]? = some F →
    ∃ F', m'.functions[f]? = some F' ∧ F.Grows F'

lemma Module.Grows.refl (m : Module) : m.Grows m := fun _ F h => ⟨F, h, .refl F⟩

lemma Module.Grows.trans {m₁ m₂ m₃ : Module} (h : m₁.Grows m₂) (h' : m₂.Grows m₃) :
    m₁.Grows m₃ := by
  intro f F hF
  obtain ⟨F₂, hF₂, hg⟩ := h f F hF
  obtain ⟨F₃, hF₃, hg'⟩ := h' f F₂ hF₂
  exact ⟨F₃, hF₃, hg.trans hg'⟩

lemma Module.Grows.length_le {m m' : Module} (h : m.Grows m') :
    m.functions.length ≤ m'.functions.length := by
  by_contra hlt
  obtain ⟨F, hF⟩ : ∃ F, m.functions[m'.functions.length]? = some F :=
    ⟨_, List.getElem?_eq_getElem (by omega)⟩
  obtain ⟨F', hF', _⟩ := h _ _ hF
  simp at hF'

/-! ## Growing at one place -/

/-- The module has grown, but of all the blocks that `m` had at most the block `block` of the
function `func` has changed. -/
structure Module.GrowsAt (func : FuncId) (block : BlockId) (m m' : Module) : Prop where
  grows : m.Grows m'
  function : ∀ (f : FuncId) (F : Function), f ≠ func → m.functions[f]? = some F →
    m'.functions[f]? = some F
  blocks : ∀ (F F' : Function) (b : BlockId) (B : Block), m.functions[func]? = some F →
    m'.functions[func]? = some F' → b ≠ block → F.blocks[b]? = some B → F'.blocks[b]? = some B

/-- A place is `func` and `block` themselves, or lies in a function or a block that the module does
not have yet. -/
def Module.Within (m : Module) (func : FuncId) (block : BlockId) (f : FuncId) (b : BlockId) :
    Prop :=
  (f = func ∧ b = block) ∨ m.functions.length ≤ f ∨
    (f = func ∧ ∀ F, m.functions[func]? = some F → F.blocks.length ≤ b)

lemma Module.GrowsAt.refl (func : FuncId) (block : BlockId) (m : Module) :
    m.GrowsAt func block m := by
  refine ⟨.refl m, fun _ _ _ h => h, ?_⟩
  intro F F' b B hF hF' _ hB
  rw [hF, Option.some.injEq] at hF'
  rwa [← hF']

/-- If `m₁` grows at one block to `m₂`, and that grows at the same block or at one that `m₁` did not
have, then `m₁` grows at the first block. -/
lemma Module.GrowsAt.within {func f : FuncId} {block b : BlockId} {m₁ m₂ m₃ : Module}
    (h : m₁.GrowsAt func block m₂) (hw : m₁.Within func block f b) (h' : m₂.GrowsAt f b m₃) :
    m₁.GrowsAt func block m₃ := by
  refine ⟨h.grows.trans h'.grows, ?_, ?_⟩
  · intro g G hg hG
    have hG₂ := h.function g G hg hG
    refine h'.function g G ?_ hG₂
    rintro rfl
    rcases hw with ⟨rfl, _⟩ | hw | ⟨rfl, _⟩
    · exact hg rfl
    · rw [List.getElem?_eq_none hw] at hG
      exact absurd hG (by simp)
    · exact hg rfl
  · intro F F' c B hF hF' hc hB
    obtain ⟨F₂, hF₂, hgF⟩ := h.grows func F hF
    have hB₂ := h.blocks F F₂ c B hF hF₂ hc hB
    by_cases hf : func = f
    · subst hf
      refine h'.blocks F₂ F' c B hF₂ hF' ?_ hB₂
      rintro rfl
      rcases hw with ⟨_, rfl⟩ | hw | ⟨_, hw⟩
      · exact hc rfl
      · rw [List.getElem?_eq_none hw] at hF
        exact absurd hF (by simp)
      · rw [List.getElem?_eq_none (hw F hF)] at hB
        exact absurd hB (by simp)
    · rw [h'.function func F₂ hf hF₂, Option.some.injEq] at hF'
      rwa [← hF']

lemma Module.GrowsAt.trans {func : FuncId} {block : BlockId} {m₁ m₂ m₃ : Module}
    (h : m₁.GrowsAt func block m₂) (h' : m₂.GrowsAt func block m₃) : m₁.GrowsAt func block m₃ :=
  h.within (.inl ⟨rfl, rfl⟩) h'

/-! ## The steps of the builder -/

/-- The module with `F` in the place of the function with the id `func`. -/
def Module.put (m : Module) (func : FuncId) (F : Function) : Module :=
  { m with functions := m.functions.set func F }

/-- The function with one more operation at the end of `block`. -/
def Function.push (F : Function) (block : BlockId) (operation : Operation) : Function :=
  { F with
    blocks := F.blocks.modify block fun B =>
      { B with insts := B.insts ++ [⟨F.nextInst, operation⟩] }
    nextInst := F.nextInst + 1 }

/-- The function with `block` closed by `terminator`. -/
def Function.close (F : Function) (block : BlockId) (terminator : Terminator) : Function :=
  { F with blocks := F.blocks.modify block fun B => { B with terminator := some terminator } }

/-- The function with one more block, which is empty and open. -/
def Function.open (F : Function) : Function := { F with blocks := F.blocks ++ [Block.empty] }

/-- The function with two more blocks, and `block` closed by a branch to them. -/
def Function.fork (F : Function) (block : BlockId) (cond : Value) : Function :=
  F.open.open.close block (.condBr cond F.blocks.length (F.blocks.length + 1))

lemma Function.checkOpen_eq_ok {F : Function} {block : BlockId} :
    F.checkOpen block = .ok () ↔ ∃ B, F.blocks[block]? = some B ∧ B.terminator = none := by
  unfold Function.checkOpen
  split
  · next h => simp [h]
  · next B h =>
      cases ht : B.terminator <;> simp [h, ht]

/-- The exact cases in which `Build.append` succeeds: the block is open, the result has the next id,
and the module has the function with the operation pushed. -/
lemma Build.append_eq_ok {func : FuncId} {block : BlockId} {op : Operation} {m m' : Module}
    {v : Value} :
    Build.append func block op m = (.ok v, m') ↔
      ∃ F B, m.functions[func]? = some F ∧ F.blocks[block]? = some B ∧ B.terminator = none ∧
        v = .inst op.ty F.nextInst ∧ m' = m.put func (F.push block op) := by
  unfold Build.append Build.onFunction
  cases hF : m.functions[func]? with
  | none => simp
  | some F =>
      simp only [Function.append]
      constructor
      · intro h
        split at h
        · simp at h
        · next hopen =>
            obtain ⟨B, hB, ht⟩ := Function.checkOpen_eq_ok.1 hopen
            simp only [Prod.mk.injEq, Except.ok.injEq] at h
            exact ⟨F, B, rfl, hB, ht, h.1.symm, h.2.symm⟩
      · rintro ⟨F', B, hF', hB, ht, rfl, rfl⟩
        rw [Option.some.injEq] at hF'
        subst hF'
        have hopen : ({ F with nextInst := F.nextInst + 1 } : Function).checkOpen block = .ok () :=
          Function.checkOpen_eq_ok.2 ⟨B, hB, ht⟩
        rw [hopen]
        rfl

/-- The exact cases in which `Build.terminate` succeeds: the block is open, and the module has the
function with the block closed. -/
lemma Build.terminate_eq_ok {func : FuncId} {block : BlockId} {t : Terminator} {m m' : Module} :
    Build.terminate func block t m = (.ok (), m') ↔
      ∃ F B, m.functions[func]? = some F ∧ F.blocks[block]? = some B ∧ B.terminator = none ∧
        m' = m.put func (F.close block t) := by
  unfold Build.terminate Build.onFunction
  cases hF : m.functions[func]? with
  | none => simp
  | some F =>
      simp only [Function.terminate]
      constructor
      · intro h
        split at h
        · simp at h
        · next hopen =>
            obtain ⟨B, hB, ht⟩ := Function.checkOpen_eq_ok.1 hopen
            simp only [Prod.mk.injEq, true_and] at h
            exact ⟨F, B, rfl, hB, ht, h.symm⟩
      · rintro ⟨F', B, hF', hB, ht, rfl⟩
        rw [Option.some.injEq] at hF'
        subst hF'
        rw [Function.checkOpen_eq_ok.2 ⟨B, hB, ht⟩]
        rfl

/-- The exact cases in which `Build.addBlock` succeeds: the function exists, and the module has it
with one more block. -/
lemma Build.addBlock_eq_ok {func : FuncId} {m m' : Module} {b : BlockId} :
    Build.addBlock func m = (.ok b, m') ↔
      ∃ F, m.functions[func]? = some F ∧ b = F.blocks.length ∧ m' = m.put func F.open := by
  unfold Build.addBlock Build.onFunction
  cases hF : m.functions[func]? with
  | none => simp
  | some F => simp [Function.addBlock, Module.put, Function.open, eq_comm]

/-- The module with one more internal function, which has one empty block. -/
def Module.withInternal (m : Module) (params : List Param) (ret : Ty) : Module :=
  { functions := m.functions ++ [⟨.internal m.nextInternal, params, ret, [.empty], 0⟩]
    nextInternal := m.nextInternal + 1 }

/-- The module with one exported function, which has one empty block. -/
def Module.withEntry (name : String) (ret : Ty) : Module :=
  ⟨[⟨.entry name, [], ret, [.empty], 0⟩], 0⟩

lemma Module.withInternal_function (m : Module) (params : List Param) (ret : Ty) :
    (m.withInternal params ret).functions[m.functions.length]? =
      some ⟨.internal m.nextInternal, params, ret, [.empty], 0⟩ := by
  simp [Module.withInternal]

/-- Declaring an internal function and opening its first block always succeeds, and gives
`withInternal`. -/
lemma Build.addInternal_addBlock {α : Type} (params : List Param) (ret : Ty)
    (k : FuncId → BlockId → Build α) (m : Module) :
    (do let func ← Build.addInternal params ret
        let block ← Build.addBlock func
        k func block : Build α) m =
      k m.functions.length 0 (m.withInternal params ret) := by
  simp [Build.addInternal, Build.declare, Build.addBlock, Build.onFunction, Attempt.bind_apply,
    Function.addBlock, Function.declare, Module.withInternal]

lemma Function.push_block {F : Function} {block : BlockId} {B : Block} {op : Operation}
    (hB : F.blocks[block]? = some B) :
    (F.push block op).blocks[block]? = some { B with insts := B.insts ++ [⟨F.nextInst, op⟩] } := by
  simp [Function.push, hB]

lemma Function.push_block_ne {F : Function} {block b : BlockId} {op : Operation} (h : b ≠ block) :
    (F.push block op).blocks[b]? = F.blocks[b]? := by
  simp [Function.push, Ne.symm h]

lemma Function.close_block {F : Function} {block : BlockId} {B : Block} {t : Terminator}
    (hB : F.blocks[block]? = some B) :
    (F.close block t).blocks[block]? = some { B with terminator := some t } := by
  simp [Function.close, hB]

lemma Function.close_block_ne {F : Function} {block b : BlockId} {t : Terminator} (h : b ≠ block) :
    (F.close block t).blocks[b]? = F.blocks[b]? := by
  simp [Function.close, Ne.symm h]

lemma Function.open_block {F : Function} {b : BlockId} {B : Block} (hB : F.blocks[b]? = some B) :
    F.open.blocks[b]? = some B := by
  have hlt : b < F.blocks.length := (List.getElem?_eq_some_iff.1 hB).1
  simpa [Function.open, List.getElem?_append_left hlt] using hB

lemma Function.open_block_new (F : Function) : F.open.blocks[F.blocks.length]? = some .empty := by
  simp [Function.open]

/-! ## Every step grows the module -/

lemma Function.grows_push {F : Function} {block : BlockId} {B : Block} {op : Operation}
    (hB : F.blocks[block]? = some B) (ht : B.terminator = none) : F.Grows (F.push block op) := by
  refine ⟨rfl, rfl, rfl, Nat.le_succ _, ?_⟩
  intro b C hC
  by_cases hb : b = block
  · subst hb
    rw [hB, Option.some.injEq] at hC
    subst hC
    exact ⟨_, push_block hB, List.prefix_append _ _, fun hc => absurd ht hc⟩
  · exact ⟨C, (push_block_ne hb).trans hC, .refl C⟩

lemma Function.grows_close {F : Function} {block : BlockId} {B : Block} {t : Terminator}
    (hB : F.blocks[block]? = some B) (ht : B.terminator = none) : F.Grows (F.close block t) := by
  refine ⟨rfl, rfl, rfl, Nat.le_refl _, ?_⟩
  intro b C hC
  by_cases hb : b = block
  · subst hb
    rw [hB, Option.some.injEq] at hC
    subst hC
    exact ⟨_, close_block hB, List.prefix_rfl, fun hc => absurd ht hc⟩
  · exact ⟨C, (close_block_ne hb).trans hC, .refl C⟩

lemma Function.grows_open (F : Function) : F.Grows F.open :=
  ⟨rfl, rfl, rfl, Nat.le_refl _, fun _ B hB => ⟨B, open_block hB, .refl B⟩⟩

lemma Module.put_function {m : Module} {func : FuncId} {F F' : Function}
    (hF : m.functions[func]? = some F) : (m.put func F').functions[func]? = some F' := by
  simp [Module.put, (List.getElem?_eq_some_iff.1 hF).1]

lemma Module.put_function_ne {m : Module} {func f : FuncId} {F : Function} (h : f ≠ func) :
    (m.put func F).functions[f]? = m.functions[f]? := by
  simp [Module.put, List.getElem?_set_ne (Ne.symm h)]

lemma Module.put_put (m : Module) (func : FuncId) (F F' : Function) :
    (m.put func F).put func F' = m.put func F' := by
  simp [Module.put]

/-- Putting a function of the same linkage in the place of another one leaves the linkages of the
module. -/
lemma Module.map_linkage_put {m : Module} {func : FuncId} {F F' : Function}
    (hF : m.functions[func]? = some F) (hlinkage : F'.linkage = F.linkage) :
    (m.put func F').functions.map Function.linkage = m.functions.map Function.linkage := by
  have hkept : (m.functions.map Function.linkage)[func]? = some F'.linkage := by
    rw [List.getElem?_map, hF, hlinkage]
    rfl
  obtain ⟨hlt, hget⟩ := List.getElem?_eq_some_iff.1 hkept
  rw [Module.put, List.map_set, ← hget, List.set_getElem_self hlt]

lemma Module.grows_put {m : Module} {func : FuncId} {F F' : Function}
    (hF : m.functions[func]? = some F) (hg : F.Grows F') : m.Grows (m.put func F') := by
  intro f G hG
  by_cases hf : f = func
  · subst hf
    rw [hF, Option.some.injEq] at hG
    subst hG
    exact ⟨F', put_function hF, hg⟩
  · exact ⟨G, (put_function_ne hf).trans hG, .refl G⟩

lemma Module.growsAt_put {m : Module} {func : FuncId} {block : BlockId} {F F' : Function}
    (hF : m.functions[func]? = some F) (hg : F.Grows F')
    (hb : ∀ (b : BlockId) (B : Block), b ≠ block → F.blocks[b]? = some B → F'.blocks[b]? = some B) :
    m.GrowsAt func block (m.put func F') := by
  refine ⟨grows_put hF hg, fun f G hf hG => (put_function_ne hf).trans hG, ?_⟩
  intro G G' b B hG hG' hne hB
  rw [hF, Option.some.injEq] at hG
  rw [put_function hF, Option.some.injEq] at hG'
  subst hG hG'
  exact hb b B hne hB

lemma Function.grows_fork {F : Function} {block : BlockId} {B : Block} {cond : Value}
    (hB : F.blocks[block]? = some B) (ht : B.terminator = none) : F.Grows (F.fork block cond) :=
  (F.grows_open.trans F.open.grows_open).trans (grows_close (open_block (open_block hB)) ht)

/-- Both targets of the branch that `fork` makes are empty blocks. -/
lemma Function.fork_block_new {F : Function} {block : BlockId} {B : Block} {cond : Value}
    (hB : F.blocks[block]? = some B) {b : BlockId}
    (hb : b = F.blocks.length ∨ b = F.blocks.length + 1) :
    (F.fork block cond).blocks[b]? = some .empty := by
  have hlt : block < F.blocks.length := (List.getElem?_eq_some_iff.1 hB).1
  rcases hb with rfl | rfl
  · exact (close_block_ne (Nat.ne_of_gt hlt)).trans (open_block F.open_block_new)
  · refine (close_block_ne (Nat.ne_of_gt (Nat.lt_succ_of_lt hlt))).trans ?_
    simp [Function.open]

/-- Closing a block by `terminate` with a branch to two blocks that were just opened gives the
module with the function forked. -/
lemma Build.terminate_fork {func : FuncId} {block : BlockId} {B : Block} {cond : Value}
    {m m' : Module} {F : Function} (hF : m.functions[func]? = some F)
    (hB : F.blocks[block]? = some B)
    (h : Build.terminate func block (.condBr cond F.blocks.length (F.blocks.length + 1))
      (m.put func F.open.open) = (.ok (), m')) :
    B.terminator = none ∧ m' = m.put func (F.fork block cond) := by
  obtain ⟨F₂, B₂, hF₂, hB₂, ho, rfl⟩ := Build.terminate_eq_ok.1 h
  rw [Module.put_function hF, Option.some.injEq] at hF₂
  subst hF₂
  rw [Function.open_block (Function.open_block hB), Option.some.injEq] at hB₂
  subst hB₂
  exact ⟨ho, m.put_put func _ _⟩

lemma Module.growsAt_append (m : Module) (func : FuncId) (block : BlockId) (op : Operation) :
    m.GrowsAt func block (Build.append func block op m).2 := by
  unfold Build.append Build.onFunction
  cases hF : m.functions[func]? with
  | none => exact .refl func block m
  | some F =>
      simp only [Function.append]
      split
      · exact growsAt_put hF
          ⟨rfl, rfl, rfl, Nat.le_succ _, fun _ B hB => ⟨B, hB, .refl B⟩⟩ (fun _ _ _ hB => hB)
      · next hopen =>
          obtain ⟨B, hB, ht⟩ := Function.checkOpen_eq_ok.1 hopen
          exact growsAt_put hF (Function.grows_push hB ht)
            (fun _ _ hb hC => (Function.push_block_ne hb).trans hC)

lemma Module.growsAt_terminate (m : Module) (func : FuncId) (block : BlockId) (t : Terminator) :
    m.GrowsAt func block (Build.terminate func block t m).2 := by
  unfold Build.terminate Build.onFunction
  cases hF : m.functions[func]? with
  | none => exact .refl func block m
  | some F =>
      simp only [Function.terminate]
      split
      · exact growsAt_put hF (.refl F) (fun _ _ _ hB => hB)
      · next hopen =>
          obtain ⟨B, hB, ht⟩ := Function.checkOpen_eq_ok.1 hopen
          exact growsAt_put hF (Function.grows_close hB ht)
            (fun _ _ hb hC => (Function.close_block_ne hb).trans hC)

lemma Module.growsAt_withInternal (m : Module) (func : FuncId) (block : BlockId)
    (params : List Param) (ret : Ty) : m.GrowsAt func block (m.withInternal params ret) := by
  have hkeep : ∀ (f : FuncId) (F : Function), m.functions[f]? = some F →
      (m.withInternal params ret).functions[f]? = some F := by
    intro f F hF
    have hlt : f < m.functions.length := (List.getElem?_eq_some_iff.1 hF).1
    simpa [Module.withInternal, List.getElem?_append_left hlt] using hF
  refine ⟨fun f F hF => ⟨F, hkeep f F hF, .refl F⟩, fun f F _ hF => hkeep f F hF, ?_⟩
  intro F F' b B hF hF' _ hB
  rw [hkeep func F hF, Option.some.injEq] at hF'
  rwa [← hF']

end Runic.Ir
