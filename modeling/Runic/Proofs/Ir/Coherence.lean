import Runic.Proofs.Ir.Typing

/-!
# Typed code while it is built

A function under construction has open blocks, and which blocks dominate which is not settled
before the last branch.  What holds of it all the time is `Function.Coherent`.  It differs from
`Function.WellTyped` in two points: a block need not have an end yet, and a result is known in the
blocks that are reached from its own.  Being reached is kept when the function grows.

In a coherent function a block is the target of branches from one other block at most, so that the
branches form a tree under the first block.  In a tree the blocks from which a block is reached
are those that dominate it (`Function.Coherent.dominates`).  When all blocks are closed, the
function is therefore well typed (`Function.Coherent.wellTyped`).

The steps of the builder keep functions coherent: `Coherent.push`, `Coherent.ret`,
`Coherent.fork` and, for a new function, `Function.coherent_new`.
-/

namespace Runic.Ir

/-! ## Where things stand after a step -/

namespace Function

variable {F F' : Function} {block b : BlockId} {B : Block} {i : Nat} {inst : Inst}

lemma places_push {op : Operation} (hB : F.blocks[block]? = some B) :
    (F.push block op).Places b i inst ↔
      F.Places b i inst ∨ (b = block ∧ i = B.insts.length ∧ inst = ⟨F.nextInst, op⟩) := by
  unfold Places
  by_cases hb : b = block
  · subst hb
    simp only [push_block hB, hB, Option.some.injEq, exists_eq_left', true_and]
    rw [List.getElem?_append]
    split
    · next hlt =>
        constructor
        · exact .inl
        · rintro (h | ⟨rfl, _⟩)
          · exact h
          · exact absurd hlt (Nat.lt_irrefl _)
    · next hge =>
        have hnone : B.insts[i]? = none := List.getElem?_eq_none (by omega)
        rw [List.getElem?_singleton, hnone]
        by_cases hi : i = B.insts.length
        · simp [hi, eq_comm]
        · simp [hi, show i - B.insts.length ≠ 0 by omega]
  · simp [push_block_ne hb, hb]

lemma ends_push {op : Operation} {t : Terminator} (hB : F.blocks[block]? = some B)
    (ho : B.terminator = none) : (F.push block op).Ends b i t ↔ F.Ends b i t := by
  unfold Ends
  by_cases hb : b = block
  · subst hb
    simp [push_block hB, hB, ho]
  · simp [push_block_ne hb]

lemma places_close {t : Terminator} : (F.close block t).Places b i inst ↔ F.Places b i inst := by
  unfold Places
  by_cases hb : b = block
  · subst hb
    cases hB : F.blocks[b]? with
    | none => simp [close, hB]
    | some B => simp [close_block hB]
  · simp [close_block_ne hb]

lemma ends_close {t t' : Terminator} (hB : F.blocks[block]? = some B)
    (ho : B.terminator = none) :
    (F.close block t).Ends b i t' ↔
      F.Ends b i t' ∨ (b = block ∧ i = B.insts.length ∧ t' = t) := by
  unfold Ends
  by_cases hb : b = block
  · subst hb
    simp [close_block hB, hB, ho, eq_comm]
  · simp [close_block_ne hb, hb]

lemma open_getElem? : F.open.blocks[b]? = some B ↔
    F.blocks[b]? = some B ∨ (b = F.blocks.length ∧ B = .empty) := by
  simp only [Function.open, List.getElem?_append]
  split
  · next hlt => simp [Nat.ne_of_lt hlt]
  · next hge =>
      rw [List.getElem?_singleton, List.getElem?_eq_none (Nat.not_lt.1 hge)]
      by_cases hb : b = F.blocks.length
      · simp [hb, eq_comm]
      · have hlt : F.blocks.length < b := Nat.lt_of_le_of_ne (Nat.not_lt.1 hge) (Ne.symm hb)
        simp [hb, Nat.sub_ne_zero_of_lt hlt]

lemma places_open : F.open.Places b i inst ↔ F.Places b i inst := by
  simp [Places, open_getElem?, or_and_right, exists_or, Block.empty]

lemma ends_open {t : Terminator} : F.open.Ends b i t ↔ F.Ends b i t := by
  simp [Ends, open_getElem?, or_and_right, exists_or, Block.empty]

lemma length_push {op : Operation} : (F.push block op).blocks.length = F.blocks.length := by
  simp [push]

lemma length_close {t : Terminator} : (F.close block t).blocks.length = F.blocks.length := by
  simp [close]

lemma length_open : F.open.blocks.length = F.blocks.length + 1 := by
  simp [Function.open]

lemma length_fork {cond : Value} :
    (F.fork block cond).blocks.length = F.blocks.length + 2 := by
  rw [fork, length_close, length_open, length_open]

lemma places_fork {cond : Value} :
    (F.fork block cond).Places b i inst ↔ F.Places b i inst := by
  rw [fork, places_close, places_open, places_open]

lemma ends_fork {cond : Value} {t : Terminator} (hB : F.blocks[block]? = some B)
    (ho : B.terminator = none) :
    (F.fork block cond).Ends b i t ↔ F.Ends b i t ∨ (b = block ∧ i = B.insts.length ∧
      t = .condBr cond F.blocks.length (F.blocks.length + 1)) := by
  rw [fork, ends_close (open_block (open_block hB)) ho, ends_open, ends_open]

lemma branch_fork {cond : Value} {a b : Nat} (hB : F.blocks[block]? = some B)
    (ho : B.terminator = none) :
    (F.fork block cond).Branch a b ↔
      F.Branch a b ∨ (a = block ∧ (b = F.blocks.length ∨ b = F.blocks.length + 1)) := by
  simp only [Branch, ends_fork hB ho, or_and_right, exists_or, Terminator.condBr.injEq]
  simp

lemma Places.lt (h : F.Places b i inst) : b < F.blocks.length := by
  obtain ⟨B, hB, _⟩ := h
  exact (List.getElem?_eq_some_iff.1 hB).1

/-! ## What growing keeps -/

lemma Grows.places (hg : F.Grows F') (h : F.Places b i inst) : F'.Places b i inst := by
  obtain ⟨B, hB, hi⟩ := h
  obtain ⟨B', hB', hg'⟩ := hg.blocks b B hB
  obtain ⟨rest, hrest⟩ := hg'.insts
  refine ⟨B', hB', ?_⟩
  rw [← hrest, List.getElem?_append_left (List.getElem?_eq_some_iff.1 hi).1, hi]

lemma Grows.ends {t : Terminator} (hg : F.Grows F') (h : F.Ends b i t) : F'.Ends b i t := by
  obtain ⟨B, hB, hlen, ht⟩ := h
  obtain ⟨B', hB', hg'⟩ := hg.blocks b B hB
  have hsame : B' = B := hg'.closed (by simp [ht])
  exact ⟨B, hsame ▸ hB', hlen, ht⟩

lemma Grows.branch {a : BlockId} (hg : F.Grows F') (h : F.Branch a b) : F'.Branch a b := by
  obtain ⟨index, cond, yes, no, hend, htarget⟩ := h
  exact ⟨index, cond, yes, no, hg.ends hend, htarget⟩

lemma Grows.reaches {a : BlockId} (hg : F.Grows F') (h : F.Reaches a b) : F'.Reaches a b :=
  Relation.ReflTransGen.mono (fun _ _ hb => hg.branch hb) _ _ h

/-- If `F` grows to `F'`, then what is provided in a block of `F` is provided in that of `F'`, at
the same position and further down. -/
lemma Grows.provides {v : Value} {ty : Ty} {j : Nat} (hg : F.Grows F') (hij : i ≤ j)
    (h : F.Provides F.Reaches b i v ty) : F'.Provides F'.Reaches b j v ty := by
  cases h with
  | const ty number => exact .const ty number
  | param declared => exact .param (hg.params ▸ declared)
  | here placed before => exact .here (hg.places placed) (Nat.lt_of_lt_of_le before hij)
  | above placed other known => exact .above (hg.places placed) other (hg.reaches known)

lemma Provides.ty_eq {above : BlockId → BlockId → Prop} {v : Value} {ty : Ty}
    (h : F.Provides above b i v ty) : v.ty? = some ty := by
  cases h <;> rfl

lemma Provides.mono {above above' : BlockId → BlockId → Prop} {v : Value} {ty : Ty}
    (hmono : ∀ a, above a b → above' a b) (h : F.Provides above b i v ty) :
    F.Provides above' b i v ty := by
  cases h with
  | const ty number => exact .const ty number
  | param declared => exact .param declared
  | here placed before => exact .here placed before
  | above placed other known => exact .above placed other (hmono _ known)

/-- What is provided in a block is provided at the beginning of the targets of its branch. -/
lemma Provides.descend {v : Value} {ty : Ty} {a : BlockId} {j : Nat}
    (h : F.Provides F.Reaches a i v ty) (edge : F.Branch a b)
    (hempty : ∀ {j inst}, ¬ F.Places b j inst) : F.Provides F.Reaches b j v ty := by
  have hne : ∀ {c k inst}, F.Places c k inst → c ≠ b := by
    rintro c k inst hp rfl
    exact hempty hp
  cases h with
  | const ty number => exact .const ty number
  | param declared => exact .param declared
  | here placed before => exact .above placed (hne placed) (.single edge)
  | above placed other known => exact .above placed (hne placed) (.tail known edge)

end Function

lemma Operation.Typed.mono {m m' : Module} {atom : Ty} {use use' : Value → Ty → Prop}
    {op : Operation} (hg : m.Grows m') (hu : ∀ v ty, use v ty → use' v ty)
    (h : op.Typed m atom use) : op.Typed m' atom use' := by
  cases h with
  | binary left right => exact .binary (hu _ _ left) (hu _ _ right)
  | icmpEq left right => exact .icmpEq (hu _ _ left) (hu _ _ right)
  | zext truth => exact .zext (hu _ _ truth)
  | call known count atoms =>
      obtain ⟨G', known', hgG⟩ := hg _ _ known
      exact .call known' (by rw [count, hgG.params]) fun arg harg => hu _ _ (atoms arg harg)

lemma Terminator.Typed.mono {F F' : Function} {atom : Ty} {use use' : Value → Ty → Prop}
    {t : Terminator} (hl : F.blocks.length ≤ F'.blocks.length)
    (hu : ∀ v ty, use v ty → use' v ty) (h : t.Typed F atom use) : t.Typed F' atom use' := by
  cases h with
  | ret value => exact .ret (hu _ _ value)
  | condBr truth yesBlock noBlock =>
      exact .condBr (hu _ _ truth) (Nat.lt_of_lt_of_le yesBlock hl) (Nat.lt_of_lt_of_le noBlock hl)

/-! ## Coherence -/

/-- The invariant of a function while it is built.  It is about open blocks too, unlike
`WellTyped`. -/
structure Function.Coherent (m : Module) (atom : Ty) (F : Function) : Prop where
  params_nodup : (F.params.map Param.name).Nodup
  params_ty : ∀ param ∈ F.params, param.ty = atom
  ret_ty : F.ret = atom
  defined : ∀ id, id < F.nextInst ↔ ∃ block index inst, F.Places block index inst ∧ inst.id = id
  once : ∀ {b b' i i' inst inst'}, F.Places b i inst → F.Places b' i' inst' → inst.id = inst'.id →
    b = b' ∧ i = i'
  target : ∀ {a b : Nat}, F.Branch a b → b ≠ 0 ∧ b < F.blocks.length
  parent : ∀ {a a' b : Nat}, F.Branch a b → F.Branch a' b → a = a'
  reached : ∀ block < F.blocks.length, F.Reaches 0 block
  operations : ∀ {block index inst}, F.Places block index inst →
    inst.operation.Typed m atom (F.Provides F.Reaches block index)
  terminators : ∀ {block index terminator}, F.Ends block index terminator →
    terminator.Typed F atom (F.Provides F.Reaches block index)

/-- Every function of the module is `Coherent`. -/
def Module.Coherent (atom : Ty) (m : Module) : Prop := ∀ F ∈ m.functions, F.Coherent m atom

namespace Function.Coherent

variable {m m' : Module} {atom : Ty} {F : Function} {block : BlockId} {B : Block}

lemma grows (h : F.Coherent m atom) (hg : m.Grows m') : F.Coherent m' atom :=
  { h with operations := fun hp => (h.operations hp).mono hg fun _ _ hu => hu }

/-- Appending an operation to an open block keeps a function coherent, if its operands are provided
there with the right types. -/
lemma push {op : Operation} (h : F.Coherent m atom) (hB : F.blocks[block]? = some B)
    (ho : B.terminator = none)
    (typed : op.Typed m atom (F.Provides F.Reaches block B.insts.length)) :
    (F.push block op).Coherent m atom := by
  have hg : F.Grows (F.push block op) := Function.grows_push hB ho
  have hbranch : ∀ {a b}, (F.push block op).Branch a b → F.Branch a b := by
    rintro a b ⟨index, cond, yes, no, hend, htarget⟩
    exact ⟨index, cond, yes, no, (ends_push hB ho).1 hend, htarget⟩
  have hold : ∀ {b i inst}, F.Places b i inst → inst.id < F.nextInst :=
    fun hp => (h.defined _).2 ⟨_, _, _, hp, rfl⟩
  refine ⟨h.params_nodup, h.params_ty, h.ret_ty, ?_, ?_, ?_, ?_, ?_, ?_, ?_⟩
  · intro id
    constructor
    · intro hid
      rcases Nat.lt_succ_iff_lt_or_eq.1 hid with hlt | rfl
      · obtain ⟨b, i, inst, hp, hinst⟩ := (h.defined id).1 hlt
        exact ⟨b, i, inst, hg.places hp, hinst⟩
      · exact ⟨block, _, _, (places_push hB).2 (.inr ⟨rfl, rfl, rfl⟩), rfl⟩
    · rintro ⟨b, i, inst, hp, rfl⟩
      rcases (places_push hB).1 hp with hp | ⟨_, _, rfl⟩
      · exact Nat.lt_succ_of_lt (hold hp)
      · exact Nat.lt_succ_self _
  · intro b b' i i' inst inst' hp hp' hid
    rcases (places_push hB).1 hp with hq | ⟨hb, hi, rfl⟩ <;>
      rcases (places_push hB).1 hp' with hq' | ⟨hb', hi', rfl⟩
    · exact h.once hq hq' hid
    · exact absurd hid (Nat.ne_of_lt (hold hq))
    · exact absurd hid.symm (Nat.ne_of_lt (hold hq'))
    · exact ⟨hb.trans hb'.symm, hi.trans hi'.symm⟩
  · intro a b hb
    rw [length_push]
    exact h.target (hbranch hb)
  · exact fun hb hb' => h.parent (hbranch hb) (hbranch hb')
  · intro b hb
    rw [length_push] at hb
    exact hg.reaches (h.reached b hb)
  · intro b i inst hp
    rcases (places_push hB).1 hp with hp | ⟨rfl, rfl, rfl⟩
    · exact (h.operations hp).mono (.refl m) fun _ _ hu => hg.provides (Nat.le_refl _) hu
    · exact typed.mono (.refl m) fun _ _ hu => hg.provides (Nat.le_refl _) hu
  · intro b i t hend
    exact (h.terminators ((ends_push hB ho).1 hend)).mono hg.length_le
      fun _ _ hu => hg.provides (Nat.le_refl _) hu

/-- Closing an open block with the return of an atom that is provided there keeps a function
coherent. -/
lemma ret {v : Value} (h : F.Coherent m atom) (hB : F.blocks[block]? = some B)
    (ho : B.terminator = none) (value : F.Provides F.Reaches block B.insts.length v atom) :
    (F.close block (.ret v)).Coherent m atom := by
  have hg : F.Grows (F.close block (.ret v)) := Function.grows_close hB ho
  have hbranch : ∀ {a b}, (F.close block (.ret v)).Branch a b → F.Branch a b := by
    rintro a b ⟨index, cond, yes, no, hend, htarget⟩
    rcases (ends_close hB ho).1 hend with hend | ⟨_, _, hne⟩
    · exact ⟨index, cond, yes, no, hend, htarget⟩
    · exact absurd hne (by simp)
  refine ⟨h.params_nodup, h.params_ty, h.ret_ty, ?_, ?_, ?_, ?_, ?_, ?_, ?_⟩
  · exact fun id => (h.defined id).trans (by simp only [places_close])
  · simpa only [places_close] using @h.once
  · intro a b hb
    rw [length_close]
    exact h.target (hbranch hb)
  · exact fun hb hb' => h.parent (hbranch hb) (hbranch hb')
  · intro b hb
    rw [length_close] at hb
    exact hg.reaches (h.reached b hb)
  · intro b i inst hp
    exact (h.operations (places_close.1 hp)).mono (.refl m)
      fun _ _ hu => hg.provides (Nat.le_refl _) hu
  · intro b i t hend
    rcases (ends_close hB ho).1 hend with hend | ⟨rfl, rfl, rfl⟩
    · exact (h.terminators hend).mono hg.length_le fun _ _ hu => hg.provides (Nat.le_refl _) hu
    · exact .ret (hg.provides (Nat.le_refl _) value)

/-- Closing an open block with a branch to two new blocks keeps a function coherent, if the
condition is a truth value that is provided there. -/
lemma fork {cond : Value} (h : F.Coherent m atom) (hB : F.blocks[block]? = some B)
    (ho : B.terminator = none) (truth : F.Provides F.Reaches block B.insts.length cond .bool) :
    (F.fork block cond).Coherent m atom := by
  have hblock : block < F.blocks.length := (List.getElem?_eq_some_iff.1 hB).1
  have hpos : 0 < F.blocks.length := Nat.zero_lt_of_lt hblock
  have hg : F.Grows (F.fork block cond) := Function.grows_fork hB ho
  have hlength : (F.fork block cond).blocks.length = F.blocks.length + 2 := length_fork
  refine ⟨h.params_nodup, h.params_ty, h.ret_ty, ?_, ?_, ?_, ?_, ?_, ?_, ?_⟩
  · exact fun id => (h.defined id).trans (by simp only [places_fork])
  · simpa only [places_fork] using @h.once
  · intro a b hb
    rcases (branch_fork hB ho).1 hb with hold | ⟨_, hnew⟩
    · have htarget := h.target hold
      omega
    · omega
  · intro a a' b hb hb'
    rcases (branch_fork hB ho).1 hb with hold | ⟨ha, hnew⟩ <;>
      rcases (branch_fork hB ho).1 hb' with hold' | ⟨ha', hnew'⟩
    · exact h.parent hold hold'
    · have htarget := h.target hold
      omega
    · have htarget := h.target hold'
      omega
    · exact ha.trans ha'.symm
  · intro (b : Nat) hb
    by_cases hold : b < F.blocks.length
    · exact hg.reaches (h.reached b hold)
    · refine .tail (hg.reaches (h.reached block hblock)) ((branch_fork hB ho).2 (.inr ⟨rfl, ?_⟩))
      omega
  · intro b i inst hp
    exact (h.operations (places_fork.1 hp)).mono (.refl m)
      fun _ _ hu => hg.provides (Nat.le_refl _) hu
  · intro b i t hend
    rcases (ends_fork hB ho).1 hend with hold | ⟨rfl, rfl, rfl⟩
    · exact (h.terminators hold).mono hg.length_le fun _ _ hu => hg.provides (Nat.le_refl _) hu
    · exact .condBr (hg.provides (Nat.le_refl _) truth) (by simp [hlength]) (by simp [hlength])

end Function.Coherent

/-- A function of atoms with one empty block is coherent. -/
lemma Function.coherent_new {m : Module} {atom : Ty} {linkage : Linkage} {params : List Param}
    (nodup : (params.map Param.name).Nodup) (hty : ∀ param ∈ params, param.ty = atom) :
    (⟨linkage, params, atom, [.empty], 0⟩ : Function).Coherent m atom := by
  have hblock : ∀ {b : BlockId} {B : Block}, [Block.empty][b]? = some B → b = 0 ∧ B = .empty := by
    intro b B hB
    rw [List.getElem?_singleton] at hB
    split at hB
    · next hb => exact ⟨hb, by simpa using hB.symm⟩
    · exact absurd hB (by simp)
  have hplaces : ∀ {b i inst},
      ¬ (⟨linkage, params, atom, [.empty], 0⟩ : Function).Places b i inst := by
    rintro b i inst ⟨B, hB, hi⟩
    rw [(hblock hB).2] at hi
    simp [Block.empty] at hi
  have hends : ∀ {b i t}, ¬ (⟨linkage, params, atom, [.empty], 0⟩ : Function).Ends b i t := by
    rintro b i t ⟨B, hB, _, ht⟩
    rw [(hblock hB).2] at ht
    simp [Block.empty] at ht
  have hbranch : ∀ {a b}, ¬ (⟨linkage, params, atom, [.empty], 0⟩ : Function).Branch a b := by
    rintro a b ⟨_, _, _, _, hend, _⟩
    exact hends hend
  refine ⟨nodup, hty, rfl, ?_, fun hp => absurd hp hplaces, fun hb => absurd hb hbranch,
    fun hb => absurd hb hbranch, ?_, fun hp => absurd hp hplaces, fun hend => absurd hend hends⟩
  · intro id
    simp [hplaces]
  · intro b hb
    have hzero : b = 0 := by simpa using hb
    rw [hzero]
    exact .refl

namespace Module.Coherent

variable {m : Module} {atom : Ty} {func : FuncId} {F F' : Function}

lemma function (h : m.Coherent atom) (hF : m.functions[func]? = some F) : F.Coherent m atom :=
  h F (List.mem_of_getElem? hF)

/-- Putting a coherent function that has grown from an old one in its place keeps a module
coherent. -/
lemma put (h : m.Coherent atom) (hF : m.functions[func]? = some F) (hg : F.Grows F')
    (hc : F'.Coherent m atom) : (m.put func F').Coherent atom := by
  intro G hG
  obtain ⟨f, hf⟩ := List.mem_iff_getElem?.1 hG
  by_cases hfunc : f = func
  · subst hfunc
    rw [Module.put_function hF, Option.some.injEq] at hf
    exact hf ▸ hc.grows (Module.grows_put hF hg)
  · rw [Module.put_function_ne hfunc] at hf
    exact (h.function hf).grows (Module.grows_put hF hg)

/-- Declaring an internal function of atoms with one block keeps a module coherent. -/
lemma withInternal {names : List String} (h : m.Coherent atom) (nodup : names.Nodup) :
    (m.withInternal (names.map (⟨·, atom⟩)) atom).Coherent atom := by
  have hg := (Module.growsAt_withInternal m 0 0 (names.map (⟨·, atom⟩)) atom).grows
  intro F hF
  simp only [Module.withInternal, List.mem_append, List.mem_singleton] at hF
  rcases hF with hF | rfl
  · exact (h F hF).grows hg
  · refine Function.coherent_new ?_ ?_
    · simpa [Function.comp_def] using nodup
    · simp

end Module.Coherent

/-! ## Finished code -/

lemma Function.exists_route {F : Function} {block : BlockId} (h : F.Reaches 0 block) :
    ∃ path, F.Route block path := by
  induction h with
  | refl => exact ⟨_, .entry⟩
  | tail _ edge ih =>
      obtain ⟨path, way⟩ := ih
      exact ⟨_, .branch way edge⟩

/-- Branches form a tree, so every route to a block passes through each block from which it is
reached. -/
lemma Function.Coherent.mem_route {m : Module} {atom : Ty} {F : Function} {a b : BlockId}
    (h : F.Coherent m atom) (hr : F.Reaches a b) :
    ∀ {path : List BlockId}, F.Route b path → a ∈ path := by
  induction hr with
  | refl =>
      rintro path (_ | ⟨_, _⟩) <;> exact List.mem_cons_self
  | tail _ edge ih =>
      rintro path (_ | ⟨way, edge'⟩)
      · exact absurd rfl (h.target edge).1
      · rw [h.parent edge' edge] at way
        exact List.mem_cons_of_mem _ (ih way)

lemma Function.Coherent.dominates {m : Module} {atom : Ty} {F : Function} {a b : BlockId}
    (h : F.Coherent m atom) (hb : b < F.blocks.length) (hr : F.Reaches a b) : F.Dominates a b :=
  ⟨exists_route (h.reached b hb), fun _ => h.mem_route hr⟩

/-- A coherent function whose blocks are all closed is `WellTyped`. -/
lemma Function.Coherent.wellTyped {m : Module} {atom : Ty} {F : Function}
    (h : F.Coherent m atom)
    (closed : ∀ block < F.blocks.length, ∃ index t, F.Ends block index t) :
    F.WellTyped m atom := by
  refine ⟨h.params_nodup, h.params_ty, h.ret_ty, h.defined, h.once, ?_, ?_⟩
  · intro b i inst hp
    exact (h.operations hp).mono (.refl m)
      fun _ _ hu => hu.mono fun a hr => h.dominates hp.lt hr
  · intro b hb
    obtain ⟨i, t, hend⟩ := closed b hb
    exact ⟨i, t, hend, (h.terminators hend).mono (Nat.le_refl _)
      fun _ _ hu => hu.mono fun a hr => h.dominates hb hr⟩

/-- In a module that passes `verify`, all blocks are closed. -/
lemma Module.closed_of_verify {m : Module} (h : m.verify = .ok ()) {F : Function}
    (hF : F ∈ m.functions) {block : BlockId} (hb : block < F.blocks.length) :
    ∃ index t, F.Ends block index t := by
  have hnone : m.fault? = none := by
    unfold Module.verify at h
    split at h
    · exact absurd h (by simp)
    · next hn => exact hn
  have hfault : F.fault? m = none := List.findSome?_eq_none_iff.1 hnone F hF
  unfold Function.fault? at hfault
  split at hfault
  · exact absurd hfault (by simp)
  · have hB := List.getElem?_eq_getElem hb
    have hmem := List.mk_mem_zipIdx_iff_getElem?.2 hB
    have hor := List.findSome?_eq_none_iff.1 hfault _ hmem
    rw [Option.or_eq_none_iff] at hor
    have hterm := hor.1
    unfold Function.terminatorFault? at hterm
    split at hterm
    · exact absurd hterm (by simp)
    · next ht => exact ⟨_, _, _, hB, rfl, ht⟩
    · next ht => exact ⟨_, _, _, hB, rfl, ht⟩

/-- **Every function of a coherent module that passes `verify` is `WellTyped`.** -/
lemma Module.Coherent.wellTyped {m : Module} {atom : Ty} (h : m.Coherent atom)
    (hv : m.verify = .ok ()) : ∀ F ∈ m.functions, F.WellTyped m atom :=
  fun F hF => (h F hF).wellTyped fun _ hb => Module.closed_of_verify hv hF hb

end Runic.Ir
