import Runic.Proofs.Lowering.Derivation

/-!
# What lowering leaves alone

A tree is lowered into one block.  Of the blocks that were there before no other one changes, and of
the functions that were there before no other one changes: whatever else is built lies in new
blocks of the same function or in new functions (`Lowers.growsAt`).
-/

namespace Runic.Lowering

open Ir

lemma growsAt_of_append {func : FuncId} {block : BlockId} {op : Operation} {m m' : Module}
    {v : Value} (h : Build.append func block op m = (.ok v, m')) : m.GrowsAt func block m' := by
  have hg := Module.growsAt_append m func block op
  rwa [h] at hg

lemma growsAt_of_terminate {func : FuncId} {block : BlockId} {t : Terminator} {m m' : Module}
    (h : Build.terminate func block t m = (.ok (), m')) : m.GrowsAt func block m' := by
  have hg := Module.growsAt_terminate m func block t
  rwa [h] at hg

lemma growsAt_of_widen {site : Site} {span : Span} {v a : Value} {m m' : Module}
    (h : widen site span v m = (.ok a, m')) : m.GrowsAt site.func site.block m' := by
  rcases widen_eq_ok.1 h with ⟨_, happ⟩ | ⟨_, _, _, rfl⟩
  · exact growsAt_of_append happ
  · exact .refl _ _ _

lemma growsAt_of_finish {site : Site} {span : Span} {r : Option Value} {m m' : Module}
    (h : finish site span r m = (.ok (), m')) : m.GrowsAt site.func site.block m' := by
  rcases finish_eq_ok.1 h with ⟨_, rfl⟩ | ⟨v, a, m₁, _, hw, ht⟩
  · exact .refl _ _ _
  · exact (growsAt_of_widen hw).trans (growsAt_of_terminate ht)

lemma length_le_of_grows {m m' : Module} {func : FuncId} {F F' : Function} (hg : m.Grows m')
    (hF : m.functions[func]? = some F) (hF' : m'.functions[func]? = some F') :
    F.blocks.length ≤ F'.blocks.length := by
  obtain ⟨G, hG, hFG⟩ := hg func F hF
  rw [hF', Option.some.injEq] at hG
  exact hG ▸ hFG.length_le

/-- Opening two blocks and branching to them grows the module at the block that is closed. -/
lemma growsAt_of_branch {site : Site} {cond : Value} {yes no : BlockId} {m m' : Module}
    {F : Function} (hF : m.functions[site.func]? = some F)
    (h : Build.terminate site.func site.block (.condBr cond yes no)
      (m.put site.func F.open.open) = (.ok (), m')) : m.GrowsAt site.func site.block m' := by
  have hopen : m.GrowsAt site.func site.block (m.put site.func F.open.open) :=
    Module.growsAt_put hF (F.grows_open.trans F.open.grows_open)
      (fun _ _ _ hB => Function.open_block (Function.open_block hB))
  exact hopen.trans (growsAt_of_terminate h)

mutual

/-- **Lowering grows the module at the block of its site**, and changes no other block that was
there. -/
theorem Lowers.growsAt {node : Node} {σ : Subject} {site : Site} {m m' : Module}
    {r : Option Value} : Lowers node σ site m r m' → m.GrowsAt site.func site.block m'
  | .num _ | .face _ | .buc => .refl _ _ _
  | .faced h => h.growsAt
  | .dottis args app | .dotlus args app | .unary _ _ args app | .binary _ _ args app =>
      args.growsAt.trans (growsAt_of_append app)
  | .tisfas bound rest => bound.growsAt.trans rest.growsAt
  | .wutcol condition _ hF branch yes no => by
      have h₁ := condition.growsAt
      have h₂ := h₁.trans (growsAt_of_branch hF branch)
      refine (h₂.within (.inr (.inr ⟨rfl, ?_⟩)) yes.growsAt).within (.inr (.inr ⟨rfl, ?_⟩))
        no.growsAt
      · exact fun G hG => length_le_of_grows h₁.grows hG hF
      · exact fun G hG => Nat.le_succ_of_le (length_le_of_grows h₁.grows hG hF)
  | .barhep trap args app => by
      have h₁ := (Module.growsAt_withInternal m site.func site.block _ site.atom).within
        (.inr (.inl (Nat.le_refl _))) trap.growsAt
      exact (h₁.trans args.growsAt).trans (growsAt_of_append app)
  | .bartis _ gate =>
      (Module.growsAt_withInternal m site.func site.block _ site.atom).within
        (.inr (.inl (Nat.le_refl _))) gate.growsAt
  | .cenhep _ head _ _ sources app =>
      (head.growsAt.trans sources.growsAt).trans (growsAt_of_append app)
  | .centis _ head _ _ sources app =>
      (head.growsAt.trans sources.growsAt).trans (growsAt_of_append app)

theorem LowersArgs.growsAt {sources : List Source} {σ : Subject} {site : Site} {m m' : Module}
    {as : List Value} : LowersArgs sources σ site m as m' → m.GrowsAt site.func site.block m'
  | .nil => .refl _ _ _
  | .tree value atom others =>
      (value.growsAt.trans (growsAt_of_widen atom)).trans others.growsAt
  | .face _ atom others => (growsAt_of_widen atom).trans others.growsAt

theorem LowersBody.growsAt {node : Node} {σ : Subject} {site : Site} {m m' : Module} :
    LowersBody node σ site m m' → m.GrowsAt site.func site.block m'
  | .mk body fin => body.growsAt.trans (growsAt_of_finish fin)

theorem LowersCallee.growsAt {target : Node} {σ : Subject} {site : Site} {m m' : Module}
    {callee : FuncId} :
    LowersCallee target σ site m callee m' → m.GrowsAt site.func site.block m'
  | .here _ | .named _ => .refl _ _ _
  | .computed value => value.growsAt

end

/-- The arguments are as many as the sources. -/
lemma LowersArgs.length_eq {sources : List Source} {σ : Subject} {site : Site} {m m' : Module}
    {as : List Value} : LowersArgs sources σ site m as m' → as.length = sources.length
  | .nil => rfl
  | .tree _ _ others | .face _ _ others => by simp [others.length_eq]

lemma Source.length_positional {span : Span} {params : List String} {args : List Node}
    (h : args.length ≤ params.length) :
    (Source.positional span params args).length = params.length := by
  simp [Source.positional]
  omega

end Runic.Lowering
