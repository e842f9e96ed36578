import Runic.Proofs.Ir.Branching
import Runic.Proofs.Lowering.Closing

/-!
# Lowered code branches as a tree

Lowering changes a module in four ways only: it appends an instruction, returns from a block, forks
a block, or declares a function.

* `Kept` — what each of the four keeps; `Lowers.kept` — then lowering a tree keeps it too.
* `kept_isGrown` — the four keep the branches of every function a tree under its first block.
* `toModule_treeShaped` — so every function of a compiled module has the shape of a tree, and
  control moves forward in it.
-/

namespace Runic

open Ir

namespace Lowering

/-! ## What every step keeps -/

/-- A property of modules that every step of lowering keeps: appending, returning, forking and
declaring. -/
structure Kept (P : Module → Prop) : Prop where
  push : ∀ {m : Module} {func : FuncId} {block : BlockId} {F : Function} {B : Block}
    (op : Operation), P m → m.functions[func]? = some F → F.blocks[block]? = some B →
    B.terminator = none →
      P (m.put func (F.push block op))
  ret : ∀ {m : Module} {func : FuncId} {block : BlockId} {F : Function} {B : Block} (v : Value),
    P m → m.functions[func]? = some F → F.blocks[block]? = some B → B.terminator = none →
      P (m.put func (F.close block (.ret v)))
  fork : ∀ {m : Module} {func : FuncId} {block : BlockId} {F : Function} {B : Block} (cond : Value),
    P m → m.functions[func]? = some F → F.blocks[block]? = some B → B.terminator = none →
      P (m.put func (F.fork block cond))
  declare : ∀ {m : Module} (params : List Param) (ret : Ty), P m → P (m.withInternal params ret)

section

variable {P : Module → Prop} {m m' : Module} {site : Site}

lemma Kept.append {op : Operation} {v : Value} (hP : Kept P) (h : P m)
    (happ : Build.append site.func site.block op m = (.ok v, m')) : P m' := by
  obtain ⟨F, B, hF, hB, ho, -, rfl⟩ := Build.append_eq_ok.1 happ
  exact hP.push op h hF hB ho

lemma Kept.widen {span : Span} {v a : Value} (hP : Kept P) (h : P m)
    (hwiden : Lowering.widen site span v m = (.ok a, m')) : P m' := by
  rcases widen_eq_ok.1 hwiden with ⟨-, happ⟩ | ⟨-, -, -, rfl⟩
  · exact hP.append h happ
  · exact h

lemma Kept.finish {span : Span} {r : Option Value} (hP : Kept P) (h : P m)
    (hfin : Lowering.finish site span r m = (.ok (), m')) : P m' := by
  rcases finish_eq_ok.1 hfin with ⟨-, rfl⟩ | ⟨v, a, m₁, -, hwiden, hterm⟩
  · exact h
  · obtain ⟨F, B, hF, hB, ho, rfl⟩ := Build.terminate_eq_ok.1 hterm
    exact hP.ret a (hP.widen h hwiden) hF hB ho

/-- Opening two blocks and closing a third one with a branch to them keeps a property that forks
keep. -/
lemma Kept.branch {cond : Value} {F : Function} (hP : Kept P) (h : P m)
    (ho : m.IsOpen site.func site.block) (hF : m.functions[site.func]? = some F)
    (hbranch : Build.terminate site.func site.block
      (.condBr cond F.blocks.length (F.blocks.length + 1)) (m.put site.func F.open.open) =
        (.ok (), m')) : P m' := by
  obtain ⟨F', B, hF', hB, ho⟩ := ho
  rw [hF, Option.some.injEq] at hF'
  subst hF'
  obtain ⟨-, rfl⟩ := Build.terminate_fork hF hB hbranch
  exact hP.fork cond h hF hB ho

end

mutual

/-- **A property that every step keeps is kept by lowering a tree into an open block.** -/
theorem Lowers.kept {P : Module → Prop} (hP : Kept P) {node : Node} {σ : Subject} {site : Site}
    {m m' : Module} {r : Option Value} (ho : m.IsOpen site.func site.block) (h : P m) :
    Lowers node σ site m r m' → P m'
  | .num _ | .face _ | .buc => h
  | .faced body => body.kept hP ho h
  | .dottis args app | .dotlus args app | .unary _ _ args app | .binary _ _ args app =>
      hP.append (args.kept hP ho h) app
  | .tisfas bound rest => rest.kept hP (bound.ending ho).1 (bound.kept hP ho h)
  | .wutcol condition _ func branch then_ else_ => by
      have ho₁ := (condition.ending ho).1
      have h₂ := hP.branch (condition.kept hP ho h) ho₁ func branch
      have hyes := isOpen_of_branch ho₁ func branch (.inl rfl)
      have hno := (isOpen_of_branch ho₁ func branch (.inr rfl)).elsewhere then_.growsAt
        fun _ => Nat.succ_ne_self _
      exact else_.kept hP (by exact hno) (then_.kept hP (by exact hyes) h₂)
  | .barhep trap args app => by
      have h₁ := trap.kept hP (Module.isOpen_withInternal _ _ _) (hP.declare _ site.atom h)
      exact hP.append (args.kept hP (isOpen_of_inner ho trap) h₁) app
  | .bartis _ gate => gate.kept hP (Module.isOpen_withInternal _ _ _) (hP.declare _ site.atom h)
  | .cenhep _ head _ _ sources app =>
      hP.append (sources.kept hP (head.isOpen ho) (head.kept hP ho h)) app
  | .centis _ _ _ _ sources app => hP.append (sources.kept hP ho h) app

theorem LowersArgs.kept {P : Module → Prop} (hP : Kept P) {sources : List Source} {σ : Subject}
    {site : Site} {m m' : Module} {as : List Value} (ho : m.IsOpen site.func site.block) (h : P m) :
    LowersArgs sources σ site m as m' → P m'
  | .nil => h
  | .tree value atom others =>
      others.kept hP (isOpen_of_widen (value.ending ho).1 atom) (hP.widen (value.kept hP ho h) atom)
  | .face _ atom others => others.kept hP (isOpen_of_widen ho atom) (hP.widen h atom)

theorem LowersBody.kept {P : Module → Prop} (hP : Kept P) {node : Node} {σ : Subject} {site : Site}
    {m m' : Module} (ho : m.IsOpen site.func site.block) (h : P m) :
    LowersBody node σ site m m' → P m'
  | .mk body fin => hP.finish (body.kept hP ho h) fin

theorem LowersCallee.kept {P : Module → Prop} (hP : Kept P) {target : Node} {σ : Subject}
    {site : Site} {m m' : Module} {callee : FuncId} (ho : m.IsOpen site.func site.block) (h : P m) :
    LowersCallee target σ site m callee m' → P m'
  | .here _ | .named _ => h
  | .computed value => value.kept hP ho h

end

/-! ## Trees of branches -/

/-- If a property holds of all functions of a module, and the changed function keeps it, then it
holds of all functions after `put`. -/
lemma forall_mem_put {P : Function → Prop} {m : Module} {func : FuncId} {F F' : Function}
    (h : ∀ G ∈ m.functions, P G) (hF : m.functions[func]? = some F) (hF' : P F → P F') :
    ∀ G ∈ (m.put func F').functions, P G := by
  intro G hG
  rcases List.mem_or_eq_of_mem_set hG with hG | rfl
  · exact h G hG
  · exact hF' (h F (List.mem_of_getElem? hF))

/-- **Every step of lowering keeps all functions grown**: the branches of each form a tree under its
first block. -/
theorem kept_isGrown : Kept fun m => ∀ F ∈ m.functions, F.IsGrown where
  push _ h hF _ _ := forall_mem_put h hF .push
  ret _ h hF hB ho := forall_mem_put h hF fun hgrown => hgrown.ret hB ho
  fork _ h hF hB ho := forall_mem_put h hF fun hgrown => hgrown.fork hB ho
  declare params ret h := by
    intro F hF
    rcases List.mem_append.1 hF with hF | hF
    · exact h F hF
    · rw [List.mem_singleton.1 hF]
      exact Function.isGrown_new

end Lowering

/-- **The blocks of every function of a compiled module form a full binary tree**: a block returns
or branches to two blocks side by side further on, and every block but the first is the target of
one branch. -/
theorem toModule_treeShaped {node : Node} {atom : Ty} {entry : String} {m : Module}
    (h : node.toModule atom entry = .ok m) : ∀ F ∈ m.functions, F.TreeShaped := by
  obtain ⟨body, hverify⟩ := Lowering.lowersBody_of_toModule h
  have hopen : (Module.withEntry entry atom).IsOpen 0 0 := ⟨_, .empty, rfl, rfl, rfl⟩
  have hentry : ∀ F ∈ (Module.withEntry entry atom).functions, F.IsGrown := by
    intro F hF
    rw [List.mem_singleton.1 hF]
    exact Function.isGrown_new
  intro F hF
  have hgrown : F.IsGrown := body.kept Lowering.kept_isGrown hopen hentry F hF
  exact hgrown.treeShaped fun _ hb => Module.closed_of_verify hverify hF hb

theorem toModule_treeShaped_factorial : ∃ m, factorialTree.toModule (.int 32) "main" = .ok m ∧
    (m.functions.map fun F => F.blocks.length) = [1, 3] ∧ ∀ F ∈ m.functions, F.TreeShaped := by
  have hrun : (factorialTree.toModule (.int 32) "main").toOption.map
      (fun m => m.functions.map fun F => F.blocks.length) = some [1, 3] := by decide +kernel
  cases h : factorialTree.toModule (.int 32) "main" with
  | error e => simp [h, Except.toOption] at hrun
  | ok m => exact ⟨m, rfl, by simpa [h, Except.toOption] using hrun, toModule_treeShaped h⟩

end Runic
