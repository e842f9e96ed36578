import Runic.Proofs.Lowering.Blame

/-!
# Lowering is confined to one block

`Lowers.growsAt` says of a tree that is lowered what it changes.  A tree that is refused leaves
behind whatever was built for it so far: instructions, blocks without an end, functions without
calls, ids that no instruction has.  This file says that nothing else is left behind either.

* `Module.ExtendsAt` — growing at one place, with all that can happen to a module: the functions
  that are new are internal, and numbered on from the last number.
* `Confined` — an attempt that starts in a module that extends a first one ends in such a module,
  whether it succeeds or fails.
* `confined_lower` — lowering is confined to its block and to what is new.  The place where a tree
  is lowered may itself be new, as in an arm of a conditional or inside of a function.
* `lower_frame` — **so lowering changes one block of what was there**, and a gate none.
-/

namespace Runic

open Ir

/-! ## Modules -/

namespace Ir.Module

/-- The module `m'` has what `m` had, but for the block `block` of the function `func`, which may
have grown.  Its further functions are internal and have the numbers that come next. -/
structure ExtendsAt (func : FuncId) (block : BlockId) (m m' : Module) : Prop extends
    Module.GrowsAt func block m m' where
  numbered : ∃ count, m'.functions.map Function.linkage = m.functions.map Function.linkage ++
    (List.range' m.nextInternal count).map Linkage.internal ∧
      m'.nextInternal = m.nextInternal + count

variable {m m₁ m₂ m₃ : Module} {func f : FuncId} {block b : BlockId}

lemma ExtendsAt.refl (func : FuncId) (block : BlockId) (m : Module) : m.ExtendsAt func block m :=
  ⟨.refl func block m, 0, by simp⟩

/-- If `m₁` extends at a block to `m₂`, and that at the same block or at one that `m₁` did not have,
then `m₁` extends at the first block. -/
lemma ExtendsAt.within (h : m₁.ExtendsAt func block m₂) (hw : m₁.Within func block f b)
    (h' : m₂.ExtendsAt f b m₃) : m₁.ExtendsAt func block m₃ := by
  obtain ⟨count, hlinkage, hnext⟩ := h.numbered
  obtain ⟨count', hlinkage', hnext'⟩ := h'.numbered
  refine ⟨h.toGrowsAt.within hw h'.toGrowsAt, count + count', ?_, ?_⟩
  · rw [hlinkage', hlinkage, hnext, List.append_assoc, ← List.map_append, List.range'_append_1]
  · rw [hnext', hnext, Nat.add_assoc]

/-- Putting a grown function of the same linkage in its place extends the module at that block. -/
lemma ExtendsAt.put {F F' : Function} (hF : m.functions[func]? = some F)
    (hg : m.GrowsAt func block (m.put func F')) (hlinkage : F'.linkage = F.linkage) :
    m.ExtendsAt func block (m.put func F') := by
  refine ⟨hg, 0, ?_, rfl⟩
  rw [map_linkage_put hF hlinkage]
  simp

/-- A change to one function extends the module at a block if it grows it there and keeps the
linkage. -/
lemma extendsAt_onFunction {α : Type} {change : Attempt Function Error α}
    (hg : m.GrowsAt func block (Build.onFunction func change m).2)
    (hlinkage : ∀ F, (change F).2.linkage = F.linkage) :
    m.ExtendsAt func block (Build.onFunction func change m).2 := by
  unfold Build.onFunction at hg ⊢
  cases hF : m.functions[func]? with
  | none => exact .refl func block m
  | some F =>
      simp only [hF] at hg
      exact .put hF hg (hlinkage F)

lemma extendsAt_append (m : Module) (func : FuncId) (block : BlockId) (op : Operation) :
    m.ExtendsAt func block (Build.append func block op m).2 := by
  refine extendsAt_onFunction (m.growsAt_append func block op) fun F => ?_
  unfold Function.append
  dsimp only
  split <;> rfl

lemma extendsAt_terminate (m : Module) (func : FuncId) (block : BlockId) (t : Terminator) :
    m.ExtendsAt func block (Build.terminate func block t m).2 := by
  refine extendsAt_onFunction (m.growsAt_terminate func block t) fun F => ?_
  unfold Function.terminate
  split <;> rfl

lemma extendsAt_addBlock (m : Module) (func : FuncId) (block : BlockId) :
    m.ExtendsAt func block (Build.addBlock func m).2 := by
  refine extendsAt_onFunction ?_ fun F => rfl
  unfold Build.onFunction
  cases hF : m.functions[func]? with
  | none => exact .refl func block m
  | some F => exact growsAt_put hF F.grows_open fun _ _ _ hB => Function.open_block hB

lemma extendsAt_withInternal (m : Module) (func : FuncId) (block : BlockId) (params : List Param)
    (ret : Ty) : m.ExtendsAt func block (m.withInternal params ret) :=
  ⟨m.growsAt_withInternal func block params ret, 1, by simp [Module.withInternal], rfl⟩

/-- If a module grows only in functions that it did not have, then its functions are a prefix of the
new ones. -/
lemma GrowsAt.prefix_functions (h : m.GrowsAt func block m₁) (hnew : m.functions.length ≤ func) :
    m.functions <+: m₁.functions := by
  rw [List.prefix_iff_getElem?]
  intro f hf
  exact h.function f _ (Nat.ne_of_lt (Nat.lt_of_lt_of_le hf hnew)) (List.getElem?_eq_getElem hf)

end Ir.Module

namespace Lowering

/-! ## Attempts -/

/-- From every module that extends `m₀` at the block, `x` leads to one that does, also if it
fails. -/
def Confined {α : Type} (m₀ : Module) (func : FuncId) (block : BlockId) (x : Build α) : Prop :=
  ∀ m, m₀.ExtendsAt func block m → m₀.ExtendsAt func block (x m).2

variable {α β : Type} {m₀ : Module} {func f : FuncId} {block b : BlockId} {σ : Subject} {site : Site}
  {span : Span}

namespace Confined

lemma pure {a : α} : Confined m₀ func block (pure a : Build α) := fun _ h => h

lemma fail {fault : LowerFault} : Confined m₀ func block (fail span fault : Build α) :=
  fun _ h => h

lemma ofExcept {r : Except Error α} : Confined m₀ func block (Attempt.ofExcept r : Build α) := by
  cases r with
  | ok a => exact pure
  | error e => exact fun _ h => h

lemma bind {x : Build α} {f : α → Build β} (hx : Confined m₀ func block x)
    (hf : ∀ a, Confined m₀ func block (f a)) : Confined m₀ func block (x >>= f) := by
  intro m hm
  have hm' := hx m hm
  rw [Attempt.bind_apply]
  cases h : x m with
  | mk outcome m' =>
      rw [h] at hm'
      cases outcome with
      | ok a => exact hf a m' hm'
      | error e => exact hm'

lemma mapM {f : α → Build β} {as : List α} (hf : ∀ a ∈ as, Confined m₀ func block (f a)) :
    Confined m₀ func block (as.mapM f) := by
  induction as with
  | nil => exact pure
  | cons a as ih =>
      rw [List.mapM_cons]
      refine (hf a List.mem_cons_self).bind fun b => ?_
      exact (ih fun c hc => hf c (List.mem_cons_of_mem _ hc)).bind fun bs => pure

/-- Opening a block of a function hands on an id that is again `Within` the block, since `m₀` does
not have the new block. -/
lemma addBlock {k : BlockId → Build α} (hw : m₀.Within func block f b)
    (hk : ∀ new, m₀.Within func block f new → Confined m₀ func block (k new)) :
    Confined m₀ func block (Build.addBlock f >>= k) := by
  intro m hm
  have hopened := hm.within hw (m.extendsAt_addBlock f b)
  rw [Attempt.bind_apply]
  cases hF : m.functions[f]? with
  | none => simpa [Build.addBlock, Build.onFunction, hF] using hm
  | some F =>
      rw [Build.addBlock_eq_ok.2 ⟨F, hF, rfl, rfl⟩] at hopened ⊢
      have hlength : ∀ G, m₀.functions[f]? = some G → G.blocks.length ≤ F.blocks.length :=
        fun G hG => length_le_of_grows hm.grows hG hF
      refine hk F.blocks.length ?_ _ hopened
      rcases hw with ⟨rfl, -⟩ | hw | ⟨rfl, -⟩
      · exact .inr (.inr ⟨rfl, hlength⟩)
      · exact .inr (.inl hw)
      · exact .inr (.inr ⟨rfl, hlength⟩)

end Confined

lemma confined_append {op : Operation} (hw : m₀.Within func block f b) :
    Confined m₀ func block (Build.append f b op) :=
  fun m hm => hm.within hw (m.extendsAt_append f b op)

lemma confined_terminate {t : Terminator} (hw : m₀.Within func block f b) :
    Confined m₀ func block (Build.terminate f b t) :=
  fun m hm => hm.within hw (m.extendsAt_terminate f b t)

lemma confined_paramNames {callee : FuncId} : Confined m₀ func block (paramNames callee) := by
  have hget : Confined m₀ func block (Attempt.get : Build Module) := fun _ h => h
  exact (hget.bind fun module => .ofExcept).bind fun function => .pure

/-! ## Operands and functions -/

lemma Confined.operand {x : Build (Option Value)} (hx : Confined m₀ func block x) :
    Confined m₀ func block (operand span x) := by
  refine hx.bind fun r => ?_
  cases r with
  | none => exact .fail
  | some v => exact .pure

lemma confined_gate {face : String} : Confined m₀ func block (gate σ span face) := by
  unfold gate
  split
  · exact .pure
  · exact .fail
  · exact .fail

section

variable {x : Build (Option Value)} (hw : m₀.Within func block site.func site.block)
include hw

lemma confined_emit {op : Operation} : Confined m₀ func block (emit site op) :=
  (confined_append hw).bind fun _ => .pure

lemma confined_widen {v : Value} : Confined m₀ func block (widen site span v) := by
  unfold widen
  split
  · exact confined_append hw
  · exact .pure
  · exact .fail

lemma confined_finish {r : Option Value} : Confined m₀ func block (finish site span r) := by
  cases r with
  | none => exact .pure
  | some v => exact (confined_widen hw).bind fun _ => confined_terminate hw

lemma confined_subjectAtom {face : String} :
    Confined m₀ func block (subjectAtom σ site span face) := by
  unfold subjectAtom
  split
  · exact confined_widen hw
  · exact .fail

lemma Confined.atomOperand (hx : Confined m₀ func block x) :
    Confined m₀ func block (atomOperand site span x) :=
  hx.operand.bind fun _ => confined_widen hw

lemma confined_callWith {callee : FuncId} {count : Nat} {args : Build (List Value)}
    (hargs : Confined m₀ func block args) :
    Confined m₀ func block (callWith σ site span callee count args) := by
  refine confined_paramNames.bind fun params => ?_
  split
  · exact .fail
  · refine (Confined.mapM fun _ _ => confined_subjectAtom hw).bind fun first => ?_
    exact hargs.bind fun last => confined_emit hw

end

/-- Building a new function is confined if lowering its body at any site within the new function
is. -/
lemma confined_define {atom : Ty} {captured samples : List String}
    {body : Subject → Site → Build (Option Value)}
    (hbody : ∀ σ site, m₀.Within func block site.func site.block →
      Confined m₀ func block (body σ site)) :
    Confined m₀ func block (define atom σ captured samples span body) := by
  intro m hm
  rw [define, Build.addInternal_addBlock]
  have hw : m₀.Within func block m.functions.length 0 := .inr (.inl hm.grows.length_le)
  refine ((hbody _ _ hw).bind fun r => (confined_finish hw).bind fun _ => .pure) _ ?_
  exact hm.within hw (m.extendsAt_withInternal _ 0 _ atom)

/-! ## Trees -/

/-- Lowering the tree is confined at every site that is the block itself or that `m₀` does not
have. -/
def LowersConfined (m₀ : Module) (func : FuncId) (block : BlockId) (node : Node) : Prop :=
  ∀ (σ : Subject) (site : Site), m₀.Within func block site.func site.block →
    Confined m₀ func block (lower node σ site)

lemma confined_lowerAtoms {nodes : List Node} (hw : m₀.Within func block site.func site.block)
    (h : ∀ n ∈ nodes, LowersConfined m₀ func block n) :
    Confined m₀ func block (lowerAtoms nodes σ site) := by
  induction nodes with
  | nil =>
      rw [lowerAtoms]
      exact .pure
  | cons node nodes ih =>
      rw [List.forall_mem_cons] at h
      rw [lowerAtoms]
      exact ((h.1 σ site hw).atomOperand hw).bind fun a => (ih h.2).bind fun as => .pure

lemma confined_lowerNamed {pairs : List Node} {name : String}
    (hw : m₀.Within func block site.func site.block)
    (h : ∀ n ∈ pairs, LowersConfined m₀ func block n) :
    Confined m₀ func block (lowerNamed pairs name σ site span) := by
  fun_induction Source.named span name pairs with
  | case1 labelSpan value rest =>
      rw [lowerNamed, if_pos rfl]
      exact (h value (by simp) σ site hw).atomOperand hw
  | case2 label labelSpan value rest hne ih =>
      rw [lowerNamed, if_neg hne]
      exact ih fun n hn => h n (by simp [hn])
  | case3 pairs hnot =>
      rw [lowerNamed]
      · exact confined_subjectAtom hw
      · exact hnot

section

variable {left right name value test yes no sample body target : Node} {args : List Node}

lemma confined_dottis (hl : LowersConfined m₀ func block left)
    (hr : LowersConfined m₀ func block right) :
    LowersConfined m₀ func block (.rune .dottis [left, right] span) := by
  intro σ site hw
  rw [lower]
  refine ((hl σ site hw).atomOperand hw).bind fun _ => ?_
  exact ((hr σ site hw).atomOperand hw).bind fun _ => confined_emit hw

lemma confined_dotlus (hv : LowersConfined m₀ func block value) :
    LowersConfined m₀ func block (.rune .dotlus [value] span) := by
  intro σ site hw
  rw [lower]
  exact ((hv σ site hw).atomOperand hw).bind fun _ => confined_emit hw

lemma confined_tisfas (hv : LowersConfined m₀ func block value)
    (hb : LowersConfined m₀ func block body) :
    LowersConfined m₀ func block (.rune .tisfas [name, value, body] span) := by
  intro σ site hw
  cases name with
  | face face place =>
      rw [lower]
      exact (hv σ site hw).operand.bind fun v => hb _ site hw
  | _ =>
      rw [lower]
      · exact .fail
      all_goals simp

/-- A conditional is confined if its three parts are: both arms are lowered in new blocks. -/
lemma confined_wutcol (ht : LowersConfined m₀ func block test)
    (hy : LowersConfined m₀ func block yes) (hn : LowersConfined m₀ func block no) :
    LowersConfined m₀ func block (.rune .wutcol [test, yes, no] span) := by
  intro σ site hw
  rw [lower]
  refine (ht σ site hw).operand.bind fun cond => ?_
  split
  · refine .addBlock hw fun yesBlock hyes => .addBlock hw fun noBlock hno => ?_
    refine (confined_terminate hw).bind fun _ => ?_
    refine (hy σ _ hyes).bind fun _ => (confined_finish hyes).bind fun _ => ?_
    exact (hn σ _ hno).bind fun _ => (confined_finish hno).bind fun _ => .pure
  · exact .fail

lemma confined_barhep (hb : LowersConfined m₀ func block body) :
    LowersConfined m₀ func block (.rune .barhep [body] span) := by
  intro σ site hw
  rw [lower]
  refine (confined_define hb).bind fun trap => ?_
  exact (Confined.mapM fun _ _ => confined_widen hw).bind fun as => confined_emit hw

/-- A gate is confined at every site, since its body is lowered in a new function. -/
lemma confined_bartis (hb : LowersConfined m₀ func block body) :
    Confined m₀ func block (lower (.rune .bartis [sample, body] span) σ site) := by
  rw [lower]
  refine Confined.ofExcept.bind fun samples => ?_
  exact (confined_define hb).bind fun gate => .pure

lemma confined_cenhep (ht : LowersConfined m₀ func block target)
    (hargs : ∀ arg ∈ args, LowersConfined m₀ func block arg) :
    LowersConfined m₀ func block (.rune .cenhep (target :: args) span) := by
  intro σ site hw
  have hcall : ∀ callee, Confined m₀ func block
      (callWith σ site span callee args.length (lowerAtoms args σ site)) :=
    fun _ => confined_callWith hw (confined_lowerAtoms hw hargs)
  rw [lower]
  split
  · exact hcall _
  · split
    · split
      · exact ((hargs _ (by simp) σ site hw).atomOperand hw).bind fun _ => confined_emit hw
      · refine ((hargs _ (by simp) σ site hw).atomOperand hw).bind fun _ => ?_
        exact ((hargs _ (by simp) σ site hw).atomOperand hw).bind fun _ => confined_emit hw
      · exact .fail
    · exact confined_gate.bind hcall
  · refine (ht σ site hw).operand.bind fun v => ?_
    split
    · exact hcall _
    · exact .fail
  · exact .fail

lemma confined_centis (hargs : ∀ arg ∈ args, LowersConfined m₀ func block arg) :
    LowersConfined m₀ func block (.rune .centis (target :: args) span) := by
  intro σ site hw
  have hcall : ∀ callee, Confined m₀ func block
      (do Attempt.ofExcept (checkPairs span args)
          let params ← paramNames callee
          let values ← params.mapM fun name => lowerNamed args name σ site span
          emit site (.call callee site.atom values) : Build (Option Value)) := by
    intro callee
    refine Confined.ofExcept.bind fun _ => confined_paramNames.bind fun params => ?_
    refine (Confined.mapM fun name _ => ?_).bind fun values => confined_emit hw
    exact confined_lowerNamed hw hargs
  rw [lower]
  split
  · exact hcall _
  · exact confined_gate.bind hcall
  · exact .fail
  · exact .fail

end

/-- **Lowering a tree changes nothing of the module but the block of its site and what is new.** -/
theorem confined_lower (node : Node) : LowersConfined m₀ func block node := by
  induction node using Node.induction with
  | buc span =>
      intro σ site _
      rw [lower]
      exact .pure
  | pat span | dot span | cell head tail span =>
      intro σ site _
      rw [lower]
      exact .fail
  | face name span =>
      intro σ site _
      rw [lower]
      split
      · exact .pure
      · exact .fail
  | faced label value span ih =>
      intro σ site hw
      rw [lower]
      exact ih σ site hw
  | num digits span =>
      intro σ site _
      rw [lower]
      exact Confined.ofExcept.bind fun _ => .pure
  | rune r args span ih =>
      cases r, args using lowering with
      | dottis left right => exact confined_dottis (ih _ (by simp)) (ih _ (by simp))
      | dotlus value => exact confined_dotlus (ih _ (by simp))
      | tisfas name value body => exact confined_tisfas (ih _ (by simp)) (ih _ (by simp))
      | wutcol test yes no =>
          exact confined_wutcol (ih _ (by simp)) (ih _ (by simp)) (ih _ (by simp))
      | barhep body => exact confined_barhep (ih _ (by simp))
      | bartis sample body => exact fun σ site _ => confined_bartis (ih _ (by simp))
      | cenhep target args =>
          exact confined_cenhep (ih _ (by simp)) fun arg harg => ih arg (by simp [harg])
      | centis target pairs => exact confined_centis fun pair hpair => ih pair (by simp [hpair])
      | uncoded r args _ hfail =>
          intro σ site _
          rw [hfail]
          exact .fail

/-- Lowering a gate leaves the functions of the module as a prefix. -/
lemma prefix_functions_of_gate (m : Module) (σ : Subject) (site : Site) (args : List Node)
    (span : Span) : m.functions <+: (lower (.rune .bartis args span) σ site m).2.functions := by
  have hconfined : Confined m m.functions.length 0 (lower (.rune .bartis args span) σ site) := by
    generalize hr : Rune.bartis = r
    cases r, args using lowering with
    | bartis sample body => exact confined_bartis (confined_lower body)
    | uncoded r args _ hfail =>
        rw [hfail]
        exact .fail
    | _ => cases hr
  exact (hconfined m (.refl _ _ m)).prefix_functions (Nat.le_refl _)

end Lowering

/-- **The frame of lowering.** In any state of a module, under any subject and at any place, also at
one that does not exist: whether a tree is lowered or refused, the module keeps all it has, except
that the block of the place may have got further instructions, and an end if it had none, and its
function further blocks and a higher next id; and whatever functions are added stand behind the
others, internal and numbered on.  A gate does not even change the block. -/
theorem lower_frame (node : Node) (σ : Subject) (site : Site) (m : Module) :
    m.ExtendsAt site.func site.block (Lowering.lower node σ site m).2 ∧
      ∀ args span,
        m.functions <+: (Lowering.lower (.rune .bartis args span) σ site m).2.functions :=
  ⟨Lowering.confined_lower node σ site (.inl ⟨rfl, rfl⟩) m (.refl _ _ m),
    Lowering.prefix_functions_of_gate m σ site⟩

end Runic
