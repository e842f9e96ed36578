import Runic.Proofs.Ir.Coherence
import Runic.Proofs.Lowering.Frame

/-!
# Lowering makes typed code

Values pass through subjects: they are bound, seen again in both arms of a conditional, and taken
into new functions.  None of them may end up where it is not known, and no truth value where an
atom is due.

* `Offers` — a place offers a value as an operand of a type.
* `Ready` — the subject holds nothing but what the place offers, and functions of the module.

`Ready` is kept when the module grows (`Ready.grows`), carried over to both arms of a conditional
(`Ready.arms`), and set up anew inside of a function (`Ready.inner`).  With it every rule of
lowering keeps the module coherent (`Lowers.coherent`), and finished code is well typed
(`toModule_wellTyped`).
-/

namespace Runic

open Ir

namespace Lowering

/-! ## What a place offers -/

/-- The value `v` is provided with the type `ty` behind the last instruction of the block of
`site`. -/
def Offers (m : Module) (site : Site) (v : Value) (ty : Ty) : Prop :=
  ∃ F B, m.functions[site.func]? = some F ∧ F.blocks[site.block]? = some B ∧
    F.Provides F.Reaches site.block B.insts.length v ty

/-- The value is a function of the module, or is offered at the site as an atom or as a truth
value. -/
def Has (m : Module) (site : Site) (v : Value) : Prop :=
  (∃ id, v = .func id ∧ id < m.functions.length) ∨
    Offers m site v site.atom ∨ Offers m site v .bool

/-- The module is coherent, and the site has all values that the subject binds. -/
structure Ready (m : Module) (σ : Subject) (site : Site) : Prop where
  coherent : m.Coherent site.atom
  place : ∃ F B, m.functions[site.func]? = some F ∧ F.blocks[site.block]? = some B
  has : ∀ {face v}, σ.get? face = some v → Has m site v

section Places

variable {m m' : Module} {site : Site} {v : Value} {ty : Ty} {σ : Subject}

lemma Offers.grows (h : Offers m site v ty) (hg : m.Grows m') : Offers m' site v ty := by
  obtain ⟨F, B, hF, hB, hp⟩ := h
  obtain ⟨F', hF', hgF⟩ := hg _ _ hF
  obtain ⟨B', hB', hgB⟩ := hgF.blocks _ _ hB
  exact ⟨F', B', hF', hB', hgF.provides hgB.insts.length_le hp⟩

lemma Offers.provides {F : Function} {B : Block} (h : Offers m site v ty)
    (hF : m.functions[site.func]? = some F) (hB : F.blocks[site.block]? = some B) :
    F.Provides F.Reaches site.block B.insts.length v ty := by
  obtain ⟨F', B', hF', hB', hp⟩ := h
  rw [hF, Option.some.injEq] at hF'
  subst hF'
  rw [hB, Option.some.injEq] at hB'
  subst hB'
  exact hp

lemma Offers.const (h : Offers m site v ty) (ty' : Ty) (n : Int) :
    Offers m site (.const ty' n) ty' := by
  obtain ⟨F, B, hF, hB, _⟩ := h
  exact ⟨F, B, hF, hB, .const ty' n⟩

lemma Offers.ty_eq (h : Offers m site v ty) : v.ty? = some ty := by
  obtain ⟨_, _, _, _, hp⟩ := h
  exact hp.ty_eq

lemma Has.grows (h : Has m site v) (hg : m.Grows m') : Has m' site v := by
  rcases h with ⟨id, rfl, hid⟩ | h | h
  · exact .inl ⟨id, rfl, Nat.lt_of_lt_of_le hid hg.length_le⟩
  · exact .inr (.inl (h.grows hg))
  · exact .inr (.inr (h.grows hg))

lemma Has.func_lt {id : FuncId} (h : Has m site (.func id)) : id < m.functions.length := by
  rcases h with ⟨_, ⟨⟩, hid⟩ | h | h
  · exact hid
  · exact absurd h.ty_eq (by simp [Value.ty?])
  · exact absurd h.ty_eq (by simp [Value.ty?])

lemma Has.truth (h : Has m site v) (hv : v.ty? = some .bool) : Offers m site v .bool := by
  rcases h with ⟨_, rfl, _⟩ | h | h
  · exact absurd hv (by simp [Value.ty?])
  · rw [h.ty_eq, Option.some.injEq] at hv
    exact hv ▸ h
  · exact h

lemma Ready.grows (h : Ready m σ site) (hg : m.Grows m') (hc : m'.Coherent site.atom) :
    Ready m' σ site := by
  obtain ⟨F, B, hF, hB⟩ := h.place
  obtain ⟨F', hF', hgF⟩ := hg _ _ hF
  obtain ⟨B', hB', _⟩ := hgF.blocks _ _ hB
  exact ⟨hc, ⟨F', B', hF', hB'⟩, fun hv => (h.has hv).grows hg⟩

lemma Ready.bind {face : String} (h : Ready m σ site) (hv : Has m site v) :
    Ready m (σ.bind face v) site := by
  refine ⟨h.coherent, h.place, ?_⟩
  intro other w hw
  rw [Subject.get?_bind] at hw
  split at hw
  · rw [Option.some.injEq] at hw
    exact hw ▸ hv
  · exact h.has hw

end Places

/-! ## What the steps keep -/

section Steps

variable {m m' : Module} {site : Site} {σ : Subject}

/-- Appending a typed operation leaves the module coherent, and the site offers the result. -/
lemma coherent_append {op : Operation} {v : Value} (hc : m.Coherent site.atom)
    (typed : op.Typed m site.atom (Offers m site))
    (h : Build.append site.func site.block op m = (.ok v, m')) :
    m'.Coherent site.atom ∧ Offers m' site v op.ty := by
  obtain ⟨F, B, hF, hB, ho, rfl, rfl⟩ := Build.append_eq_ok.1 h
  have typed' := typed.mono (.refl m) fun _ _ hu => hu.provides hF hB
  refine ⟨hc.put hF (Function.grows_push hB ho) ((hc.function hF).push hB ho typed'), ?_⟩
  refine ⟨_, _, Module.put_function hF, Function.push_block hB, ?_⟩
  have hplace : (F.push site.block op).Places site.block B.insts.length ⟨F.nextInst, op⟩ :=
    (Function.places_push hB).2 (.inr ⟨rfl, rfl, rfl⟩)
  exact .here hplace (by simp)

lemma coherent_widen {span : Span} {v a : Value} (hc : m.Coherent site.atom) (hv : Has m site v)
    (h : widen site span v m = (.ok a, m')) :
    m'.Coherent site.atom ∧ Offers m' site a site.atom := by
  rcases widen_eq_ok.1 h with ⟨hbool, happ⟩ | ⟨bits, hint, rfl, rfl⟩
  · exact coherent_append hc (.zext (hv.truth hbool)) happ
  · refine ⟨hc, ?_⟩
    rcases hv with ⟨_, rfl, _⟩ | hv | hv
    · exact absurd hint (by simp [Value.ty?])
    · exact hv
    · exact absurd (hint.symm.trans hv.ty_eq) (by simp)

lemma coherent_finish {span : Span} {r : Option Value} (hc : m.Coherent site.atom)
    (hr : ∀ v, r = some v → Has m site v) (h : finish site span r m = (.ok (), m')) :
    m'.Coherent site.atom := by
  rcases finish_eq_ok.1 h with ⟨_, rfl⟩ | ⟨v, a, m₁, hv, hw, ht⟩
  · exact hc
  · obtain ⟨hc₁, ha⟩ := coherent_widen hc (hr v hv) hw
    obtain ⟨F, B, hF, hB, ho, rfl⟩ := Build.terminate_eq_ok.1 ht
    exact hc₁.put hF (Function.grows_close hB ho)
      ((hc₁.function hF).ret hB ho (ha.provides hF hB))

/-- After a branch the module is coherent, and what the old block has, the new ones have too. -/
lemma Ready.arms {cond : Value} {F : Function} {block : BlockId} (hr : Ready m σ site)
    (hF : m.functions[site.func]? = some F) (truth : Offers m site cond .bool)
    (h : Build.terminate site.func site.block
      (.condBr cond F.blocks.length (F.blocks.length + 1)) (m.put site.func F.open.open) =
        (.ok (), m'))
    (hnew : block = F.blocks.length ∨ block = F.blocks.length + 1) :
    Ready m' σ { site with block := block } := by
  obtain ⟨F₀, B, hF₀, hB⟩ := hr.place
  rw [hF, Option.some.injEq] at hF₀
  subst hF₀
  obtain ⟨ho, rfl⟩ := Build.terminate_fork hF hB h
  set F' := F.fork site.block cond
  have hg : F.Grows F' := Function.grows_fork hB ho
  have hput : (m.put site.func F').functions[site.func]? = some F' := Module.put_function hF
  have hempty : F'.blocks[block]? = some .empty := Function.fork_block_new hB hnew
  have edge : F'.Branch site.block block := (Function.branch_fork hB ho).2 (.inr ⟨rfl, hnew⟩)
  have hoffer : ∀ {v ty}, Offers m site v ty →
      Offers (m.put site.func F') { site with block := block } v ty := by
    intro v ty hv
    refine ⟨F', .empty, hput, hempty, ?_⟩
    refine (hg.provides (Nat.le_refl _) (hv.provides hF hB)).descend edge ?_
    rintro j inst ⟨C, hC, hj⟩
    rw [hempty, Option.some.injEq] at hC
    subst hC
    simp [Block.empty] at hj
  refine ⟨hr.coherent.put hF hg ((hr.coherent.function hF).fork hB ho (truth.provides hF hB)),
    ⟨F', .empty, hput, hempty⟩, ?_⟩
  intro face v hv
  rcases hr.has hv with ⟨id, rfl, hid⟩ | hv | hv
  · exact .inl ⟨id, rfl, Nat.lt_of_lt_of_le hid (Module.grows_put hF hg).length_le⟩
  · exact .inr (.inl (hoffer hv))
  · exact .inr (.inr (hoffer hv))

/-- In the first block of a new function, the inner subject is ready: the site offers the
parameters, and all else is functions. -/
lemma Ready.inner {names samples : List String} (hr : Ready m σ site) (nodup : names.Nodup) :
    Ready (m.withInternal (atomParams site.atom names) site.atom)
      (innerSubject σ samples (atomParams site.atom names))
      (entrySite site.atom m.functions.length) := by
  have hnew := m.withInternal_function (atomParams site.atom names) site.atom
  refine ⟨hr.coherent.withInternal nodup, ⟨_, .empty, hnew, rfl⟩, ?_⟩
  intro face v hv
  rw [get?_innerSubject] at hv
  split at hv
  · next hmem =>
      rw [Option.some.injEq] at hv
      subst hv
      exact .inr (.inl ⟨_, _, hnew, rfl, .param (List.mem_map_of_mem hmem)⟩)
  · obtain ⟨hget, hfunc⟩ := Option.filter_eq_some_iff.1 hv
    cases v with
    | func id =>
        refine .inl ⟨id, rfl, ?_⟩
        simpa [Module.withInternal] using Nat.lt_succ_of_lt (hr.has hget).func_lt
    | _ => simp [Value.func?] at hfunc

/-- Appending a call with as many arguments as the callee has parameters leaves the module coherent,
and the site offers the result. -/
lemma coherent_call {m₀ : Module} {callee : FuncId} {F : Function} {as : List Value} {v : Value}
    (hF : m₀.functions[callee]? = some F) (hg : m₀.Grows m) (hc : m.Coherent site.atom)
    (count : as.length = F.params.length) (atoms : ∀ a ∈ as, Offers m site a site.atom)
    (h : Build.append site.func site.block (.call callee site.atom as) m = (.ok v, m')) :
    m'.Coherent site.atom ∧ Has m' site v := by
  obtain ⟨F', hF', hgF⟩ := hg _ _ hF
  obtain ⟨hc', hv⟩ := coherent_append hc (.call hF' (by rw [count, hgF.params]) atoms) h
  exact ⟨hc', .inr (.inl hv)⟩

end Steps

/-! ## What the rules keep -/

mutual

/-- **Lowering a tree at a site that is ready leaves the module coherent, and the site has the
operand.** -/
theorem Lowers.coherent {node : Node} {σ : Subject} {site : Site} {m m' : Module}
    {r : Option Value} (hr : Ready m σ site) : Lowers node σ site m r m' →
      m'.Coherent site.atom ∧ ∀ v ∈ r, Has m' site v
  | .num value => by
      obtain ⟨bits, n, _, _, rfl⟩ := numeral_eq_ok.1 value
      obtain ⟨F, B, hF, hB⟩ := hr.place
      refine ⟨hr.coherent, ?_⟩
      rintro _ ⟨⟩
      exact .inr (.inl ⟨F, B, hF, hB, .const _ n⟩)
  | .face bound => by
      refine ⟨hr.coherent, ?_⟩
      rintro _ ⟨⟩
      exact hr.has bound
  | .buc => by
      obtain ⟨F, _, hF, _⟩ := hr.place
      refine ⟨hr.coherent, ?_⟩
      rintro _ ⟨⟩
      exact .inl ⟨site.func, rfl, (List.getElem?_eq_some_iff.1 hF).1⟩
  | .faced body => body.coherent hr
  | .dottis args app => by
      obtain ⟨hc, ha⟩ := args.coherent hr
      obtain ⟨hc', hv⟩ := coherent_append hc (.icmpEq (ha _ (by simp)) (ha _ (by simp))) app
      refine ⟨hc', ?_⟩
      rintro _ ⟨⟩
      exact .inr (.inr hv)
  | .dotlus args app | .unary _ _ args app => by
      obtain ⟨hc, ha⟩ := args.coherent hr
      have ha := ha _ List.mem_cons_self
      obtain ⟨hc', hv⟩ := coherent_append hc (.binary ha (ha.const _ _)) app
      refine ⟨hc', ?_⟩
      rintro _ ⟨⟩
      exact .inr (.inl hv)
  | .binary _ _ args app => by
      obtain ⟨hc, ha⟩ := args.coherent hr
      obtain ⟨hc', hv⟩ := coherent_append hc (.binary (ha _ (by simp)) (ha _ (by simp))) app
      refine ⟨hc', ?_⟩
      rintro _ ⟨⟩
      exact .inr (.inl hv)
  | .tisfas bound rest => by
      obtain ⟨hc, hv⟩ := bound.coherent hr
      exact rest.coherent ((hr.grows bound.growsAt.grows hc).bind (hv _ rfl))
  | .wutcol condition bool func branch then_ else_ => by
      obtain ⟨hc, hv⟩ := condition.coherent hr
      have hr₁ := hr.grows condition.growsAt.grows hc
      have truth := (hv _ rfl).truth bool
      have hc₂ := then_.coherent (hr₁.arms func truth branch (.inl rfl))
      have hr₂ := (hr₁.arms func truth branch (.inr rfl)).grows then_.growsAt.grows hc₂
      have hc₃ := else_.coherent hr₂
      refine ⟨hc₃, ?_⟩
      rintro _ ⟨⟩
  | .barhep trap args app => by
      have hc := trap.coherent (hr.inner (capturedFaces_nodup σ []))
      have hg := (Module.growsAt_withInternal m site.func site.block _ site.atom).grows.trans
        trap.growsAt.grows
      obtain ⟨hc₁, ha⟩ := args.coherent (hr.grows hg hc)
      obtain ⟨hc₂, hv⟩ := coherent_call (m.withInternal_function _ site.atom)
        (trap.growsAt.grows.trans args.growsAt.grows) hc₁
        (by simp [args.length_eq, atomParams]) ha app
      refine ⟨hc₂, ?_⟩
      rintro _ ⟨⟩
      exact hv
  | .bartis mold gate => by
      have hc := gate.coherent (hr.inner (params_nodup mold))
      refine ⟨hc, ?_⟩
      rintro _ ⟨⟩
      refine .inl ⟨_, rfl, Nat.lt_of_lt_of_le ?_ gate.growsAt.grows.length_le⟩
      simp [Module.withInternal]
  | .cenhep _ head func enough sources app => by
      have hr₁ := hr.grows head.growsAt.grows (head.coherent hr)
      obtain ⟨hc, ha⟩ := sources.coherent hr₁
      have hlen := sources.length_eq
      rw [Source.length_positional (by simpa using enough), List.length_map] at hlen
      obtain ⟨hc', hv⟩ := coherent_call func sources.growsAt.grows hc hlen ha app
      refine ⟨hc', ?_⟩
      rintro _ ⟨⟩
      exact hv
  | .centis _ _ _ func sources app => by
      obtain ⟨hc, ha⟩ := sources.coherent hr
      obtain ⟨hc', hv⟩ := coherent_call func sources.growsAt.grows hc
        (by simpa using sources.length_eq) ha app
      refine ⟨hc', ?_⟩
      rintro _ ⟨⟩
      exact hv

theorem LowersArgs.coherent {sources : List Source} {σ : Subject} {site : Site} {m m' : Module}
    {as : List Value} (hr : Ready m σ site) : LowersArgs sources σ site m as m' →
      m'.Coherent site.atom ∧ ∀ a ∈ as, Offers m' site a site.atom
  | .nil => ⟨hr.coherent, by simp⟩
  | .tree value atom others => by
      obtain ⟨hc, hv⟩ := value.coherent hr
      obtain ⟨hc₁, ha⟩ := coherent_widen hc (hv _ rfl) atom
      have hg := value.growsAt.grows.trans (growsAt_of_widen atom).grows
      obtain ⟨hc₂, has⟩ := others.coherent (hr.grows hg hc₁)
      refine ⟨hc₂, ?_⟩
      rintro a (_ | ⟨_, hmem⟩)
      · exact ha.grows others.growsAt.grows
      · exact has a hmem
  | .face bound atom others => by
      obtain ⟨hc₁, ha⟩ := coherent_widen hr.coherent (hr.has bound) atom
      obtain ⟨hc₂, has⟩ := others.coherent (hr.grows (growsAt_of_widen atom).grows hc₁)
      refine ⟨hc₂, ?_⟩
      rintro a (_ | ⟨_, hmem⟩)
      · exact ha.grows others.growsAt.grows
      · exact has a hmem

theorem LowersBody.coherent {node : Node} {σ : Subject} {site : Site} {m m' : Module}
    (hr : Ready m σ site) : LowersBody node σ site m m' → m'.Coherent site.atom
  | .mk body fin => by
      obtain ⟨hc, hv⟩ := body.coherent hr
      exact coherent_finish hc (fun v hv' => hv v hv') fin

theorem LowersCallee.coherent {target : Node} {σ : Subject} {site : Site} {m m' : Module}
    {callee : FuncId} (hr : Ready m σ site) :
    LowersCallee target σ site m callee m' → m'.Coherent site.atom
  | .here _ | .named _ => hr.coherent
  | .computed value => (value.coherent hr).1

end

/-! ## Finished modules -/

lemma Ready.entry (atom : Ty) (name : String) :
    Ready (.withEntry name atom) .empty (entrySite atom 0) := by
  refine ⟨?_, ⟨_, .empty, rfl, rfl⟩, fun hv => by simp [Subject.get?_empty] at hv⟩
  intro F hF
  rw [List.mem_singleton.1 hF]
  exact Function.coherent_new List.nodup_nil (by simp)

end Lowering

/-- **Every module is well typed.**  In every function of it, parameters have different names, ids
stand for one instruction each, every operand is known where it is used and has the type that is
asked for, every call has as many arguments as its callee has parameters; and in its text no
operand, label or symbol is missing. -/
theorem toModule_wellTyped {node : Node} {bits : Nat} {entry : String} {m : Module}
    (h : node.toModule (.int bits) entry = .ok m) :
    (∀ F ∈ m.functions, F.WellTyped m (.int bits)) ∧ m.Spelled := by
  obtain ⟨body, hv⟩ := Lowering.lowersBody_of_toModule h
  have hc : m.Coherent (.int bits) := body.coherent (.entry (.int bits) entry)
  have typed := hc.wellTyped hv
  exact ⟨typed, Module.spelled_of_wellTyped typed⟩

theorem toModule_wellTyped_factorial : ∃ m, factorialTree.toModule (.int 32) "main" = .ok m ∧
    m.functions.length = 2 ∧ (∀ F ∈ m.functions, F.WellTyped m (.int 32)) ∧ m.Spelled := by
  have hrun : (factorialTree.toModule (.int 32) "main").toOption.map (·.functions.length) =
      some 2 := by decide +kernel
  cases h : factorialTree.toModule (.int 32) "main" with
  | error e => simp [h, Except.toOption] at hrun
  | ok m => exact ⟨m, rfl, by simpa [h, Except.toOption] using hrun, toModule_wellTyped h⟩

end Runic
