import Runic.Compile
import Runic.Proofs.Ir.Resizing
import Runic.Proofs.Lowering.Cases
import Runic.Proofs.Lowering.Overrides

/-!
# Wider atoms

Lowering hands the type of atoms on and looks at it in one place only, where a numeral has to fit.
So two runs with atoms of different widths go step by step together, until a numeral is too large
for the smaller atoms.

* `Subject.resize` — a subject in the code with the wider atoms.
* `widens_lower` — **a tree is lowered with wider atoms as it was, resized**, unless a numeral did
  not fit.
* `compile_wider` — **so a source that compiles does so with wider atoms**, to the same module with
  another integer type; and a source that fails for another reason than a numeral fails for it
  again.
-/

namespace Runic

open Ir

variable {w w' : Nat}

/-! ## Subjects -/

namespace Subject

def resize (w w' : Nat) (σ : Subject) : Subject :=
  ⟨σ.bindings.map (Prod.map id (Value.resize w w')), by rw [List.pairwise_map]; exact σ.ordered⟩

lemma get?_resize (σ : Subject) (face : String) :
    (σ.resize w w').get? face = (σ.get? face).map (Value.resize w w') := by
  unfold get? resize
  dsimp only
  induction σ.bindings with
  | nil => rfl
  | cons b bs ih =>
      obtain ⟨other, v⟩ := b
      rw [List.map_cons, Prod.map, lookup_cons_if, lookup_cons_if, ih]
      dsimp only [id]
      split <;> rfl

lemma bindOrdered_resize (face : String) (v : Value) (bs : List (String × Value)) :
    bindOrdered face (v.resize w w') (bs.map (Prod.map id (Value.resize w w'))) =
      (bindOrdered face v bs).map (Prod.map id (Value.resize w w')) := by
  induction bs with
  | nil => rfl
  | cons b bs ih =>
      obtain ⟨other, kept⟩ := b
      simp only [List.map_cons, Prod.map, id, bindOrdered]
      split
      · rfl
      · split
        · rfl
        · exact congrArg (_ :: ·) ih

lemma bind_resize (σ : Subject) (face : String) (v : Value) :
    (σ.resize w w').bind face (v.resize w w') = (σ.bind face v).resize w w' := by
  simp only [bind, resize, bindOrdered_resize]

lemma foldl_bind_resize {α : Type} (name : α → String) (value : α → Value) (as : List α)
    (σ : Subject) :
    as.foldl (fun σ a => σ.bind (name a) ((value a).resize w w')) (σ.resize w w') =
      (as.foldl (fun σ a => σ.bind (name a) (value a)) σ).resize w w' :=
  List.foldl_hom _ fun σ a => bind_resize σ (name a) (value a)

end Subject

lemma capturedFaces_resize (σ : Subject) (samples : List String) :
    (capturedFaces σ samples).map (Prod.map id (Value.resize w w')) =
      capturedFaces (σ.resize w w') samples := by
  unfold capturedFaces Subject.dataFaces Subject.resize
  simp only [List.filter_map, Function.comp_def, Prod.map, Value.func?_resize, id]

/-- A resized subject has the same captured faces, in the same order. -/
lemma map_fst_capturedFaces_resize (σ : Subject) (samples : List String) :
    (capturedFaces (σ.resize w w') samples).map Prod.fst =
      (capturedFaces σ samples).map Prod.fst := by
  rw [← capturedFaces_resize, List.map_map]
  rfl

lemma atomParams_resize (atom : Ty) (names : List String) :
    (atomParams atom names).map (Param.resize w w') = atomParams (atom.resize w w') names := by
  simp [atomParams, Param.resize]

lemma innerSubject_resize (σ : Subject) (samples : List String) (params : List Param) :
    innerSubject (σ.resize w w') samples (params.map (Param.resize w w')) =
      (innerSubject σ samples params).resize w w' := by
  unfold innerSubject
  dsimp only
  rw [← Subject.foldl_bind_resize Param.name Param.value,
    ← Subject.foldl_bind_resize Prod.fst Prod.snd, List.foldl_map]
  congr 1
  simp only [Subject.functionFaces, Subject.resize, List.filter_map, List.foldl_map,
    Function.comp_def, Prod.map, Value.func?_resize, id]
  rfl

/-! ## Operands and functions -/

/-- The error is that a numeral does not fit an atom. -/
def Error.isMisfit : Error → Bool
  | .lower _ (.numeralTooLarge _ _) => true
  | _ => false

def Site.resize (w w' : Nat) (site : Site) : Site := { site with atom := site.atom.resize w w' }

namespace Lowering

variable {α β : Type} {σ : Subject} {site : Site} {span : Span}

/-- What `y` does to a resized module is what `x` does to the module, resized, unless `x` fails
because a numeral does not fit. -/
abbrev Widens (w w' : Nat) (result : α → β) (x : Build α) (y : Build β) : Prop :=
  Attempt.Tracks (fun e => e.isMisfit = true) (Module.resize w w') result x y

lemma widens_emit (op : Operation) :
    Widens w w' (Option.map (Value.resize w w')) (emit site op)
      (emit (site.resize w w') (op.resize w w')) :=
  (Build.tracks_append site.func site.block op).bind fun _ => .pure rfl

lemma widens_widen (v : Value) : Widens w w' (Value.resize w w') (widen site span v)
    (widen (site.resize w w') span (v.resize w w')) := by
  unfold widen
  rw [Value.ty?_resize]
  cases hty : v.ty? with
  | none => exact .fail
  | some ty =>
      cases ty with
      | bool => exact Build.tracks_append site.func site.block (.zext v site.atom)
      | int bits => exact .pure rfl

lemma widens_finish (r : Option Value) : Widens w w' id (finish site span r)
    (finish (site.resize w w') span (r.map (Value.resize w w'))) := by
  cases r with
  | none => exact .pure rfl
  | some v => exact (widens_widen v).bind fun v => Build.tracks_terminate _ _ (.ret v)

section

variable {x y : Build (Option Value)}

lemma widens_operand (h : Widens w w' (Option.map (Value.resize w w')) x y) :
    Widens w w' (Value.resize w w') (operand span x) (operand span y) := by
  refine h.bind fun r => ?_
  cases r with
  | none => exact .fail
  | some v => exact .pure rfl

lemma widens_atomOperand (h : Widens w w' (Option.map (Value.resize w w')) x y) :
    Widens w w' (Value.resize w w') (atomOperand site span x)
      (atomOperand (site.resize w w') span y) :=
  (widens_operand h).bind widens_widen

end

lemma widens_subjectAtom (face : String) :
    Widens w w' (Value.resize w w') (subjectAtom σ site span face)
      (subjectAtom (σ.resize w w') (site.resize w w') span face) := by
  unfold subjectAtom
  rw [Subject.get?_resize]
  cases σ.get? face with
  | none => exact .fail
  | some v => exact widens_widen v

lemma widens_gate (face : String) :
    Widens w w' id (gate σ span face) (gate (σ.resize w w') span face) := by
  unfold gate
  rw [Subject.get?_resize]
  cases σ.get? face with
  | none => exact .fail
  | some v =>
      cases v with
      | func id => exact .pure rfl
      | const | param | inst => exact .fail

lemma widens_paramNames (callee : FuncId) :
    Widens w w' id (paramNames callee) (paramNames callee) := by
  refine (Build.tracks_function callee).bind fun F => .pure ?_
  simp [Function.resize, Param.resize]

lemma widens_define {atom : Ty} {captured samples : List String}
    {body body' : Subject → Site → Build (Option Value)}
    (h : ∀ σ site, Widens w w' (Option.map (Value.resize w w')) (body σ site)
      (body' (σ.resize w w') (site.resize w w'))) :
    Widens w w' id (define atom σ captured samples span body)
      (define (atom.resize w w') (σ.resize w w') captured samples span body') := by
  unfold define
  dsimp only
  rw [← atomParams_resize]
  -- the body is lowered under another subject, which is resized with its parameters
  refine (Build.tracks_addInternal _ atom).bind fun func => ?_
  refine (Build.tracks_addBlock func).bind fun block => ?_
  rw [innerSubject_resize]
  refine (h _ ⟨atom, func, block⟩).bind fun r => ?_
  exact (widens_finish r).bind fun _ => .pure rfl

lemma widens_callWith {callee : FuncId} {count : Nat} {args args' : Build (List Value)}
    (h : Widens w w' (List.map (Value.resize w w')) args args') :
    Widens w w' (Option.map (Value.resize w w')) (callWith σ site span callee count args)
      (callWith (σ.resize w w') (site.resize w w') span callee count args') := by
  refine (widens_paramNames callee).bind fun params => ?_
  dsimp only [id]
  split
  · exact .fail
  · refine (Attempt.Tracks.mapM (List.map_id _) widens_subjectAtom).bind fun first => ?_
    refine h.bind fun last => ?_
    rw [← List.map_append]
    exact widens_emit (.call callee site.atom (first ++ last))

/-! ## Numerals -/

lemma greatestAtom_mono {bits bits' : Nat} (h : bits ≤ bits') :
    greatestAtom bits ≤ greatestAtom bits' := by
  unfold greatestAtom
  have hpow : 2 ^ (min bits 64 - 1) ≤ 2 ^ (min bits' 64 - 1) :=
    Nat.pow_le_pow_right (by decide) (by omega)
  simp only [Nat.pow_eq, Int.ofNat_eq_natCast]
  omega

/-- The value of a numeral in an atom is its value in a wider one. -/
lemma numeralValue?_mono {bits bits' : Nat} (h : bits ≤ bits') {digits : String} {value : Int}
    (hvalue : numeralValue? bits digits = some value) :
    numeralValue? bits' digits = some value := by
  unfold numeralValue? at hvalue ⊢
  rw [Option.filter_eq_some_iff] at hvalue ⊢
  obtain ⟨hread, hfits⟩ := hvalue
  have hmono := greatestAtom_mono h
  refine ⟨hread, ?_⟩
  simp only [decide_eq_true_eq] at hfits ⊢
  omega

lemma widens_numeral (h : w ≤ w') (atom : Ty) (digits : String) :
    Widens w w' (Value.resize w w') (Attempt.ofExcept (numeral atom digits span))
      (Attempt.ofExcept (numeral (atom.resize w w') digits span)) := by
  cases atom with
  | bool => exact .fail
  | int bits =>
      simp only [Ty.resize, numeral]
      -- only here do the runs part: the numeral may fit the wider atom
      cases hvalue : numeralValue? bits digits with
      | none => exact fun m => .inl ⟨_, rfl, rfl⟩
      | some value =>
          rw [numeralValue?_mono (by split <;> omega) hvalue]
          exact .pure rfl

/-! ## Trees -/

/-- Lowering the tree with atoms of `w'` bits is lowering it with `w` bits, resized. -/
def WidensAt (w w' : Nat) (node : Node) : Prop :=
  ∀ (σ : Subject) (site : Site), Widens w w' (Option.map (Value.resize w w')) (lower node σ site)
    (lower node (σ.resize w w') (site.resize w w'))

lemma widens_lowerAtoms {nodes : List Node} (hs : ∀ node ∈ nodes, WidensAt w w' node) :
    Widens w w' (List.map (Value.resize w w')) (lowerAtoms nodes σ site)
      (lowerAtoms nodes (σ.resize w w') (site.resize w w')) := by
  induction nodes with
  | nil => exact .pure rfl
  | cons node nodes ih =>
      rw [List.forall_mem_cons] at hs
      rw [lowerAtoms, lowerAtoms]
      refine (widens_atomOperand (hs.1 σ site)).bind fun v => ?_
      exact (ih hs.2).bind fun vs => .pure rfl

lemma widens_lowerNamed {pairs : List Node} (hs : ∀ pair ∈ pairs, WidensAt w w' pair)
    (name : String) : Widens w w' (Value.resize w w') (lowerNamed pairs name σ site span)
      (lowerNamed pairs name (σ.resize w w') (site.resize w w') span) := by
  fun_induction Source.named span name pairs with
  | case1 labelSpan value rest =>
      simp only [lowerNamed, if_pos]
      exact widens_atomOperand (hs value (by simp) σ site)
  | case2 label labelSpan value rest hne ih =>
      simp only [lowerNamed, if_neg hne]
      exact ih fun n hn => hs n (by simp [hn])
  | case3 pairs hnot =>
      rw [lowerNamed, lowerNamed]
      · exact widens_subjectAtom name
      all_goals exact hnot

lemma widensAt_tisfas {name value body : Node} (hv : WidensAt w w' value)
    (hb : WidensAt w w' body) : WidensAt w w' (.rune .tisfas [name, value, body] span) := by
  intro σ site
  cases name with
  | face face place =>
      rw [lower, lower]
      refine (widens_operand (hv σ site)).bind fun v => ?_
      rw [Subject.bind_resize]
      exact hb (σ.bind face v) site
  | _ => exact .fail

lemma widensAt_wutcol {test yes no : Node} (ht : WidensAt w w' test) (hy : WidensAt w w' yes)
    (hn : WidensAt w w' no) : WidensAt w w' (.rune .wutcol [test, yes, no] span) := by
  intro σ site
  rw [lower, lower]
  refine (widens_operand (ht σ site)).bind fun cond => ?_
  simp only [Value.ty?_resize_eq_bool]
  split
  · refine (Build.tracks_addBlock site.func).bind fun yesBlock => ?_
    refine (Build.tracks_addBlock site.func).bind fun noBlock => ?_
    refine (Build.tracks_terminate _ _ (.condBr cond yesBlock noBlock)).bind fun _ => ?_
    refine (hy σ { site with block := yesBlock }).bind fun r => ?_
    refine (widens_finish r).bind fun _ => ?_
    refine (hn σ { site with block := noBlock }).bind fun r => ?_
    exact (widens_finish r).bind fun _ => .pure rfl
  · exact .fail

lemma widensAt_barhep {body : Node} (hb : WidensAt w w' body) :
    WidensAt w w' (.rune .barhep [body] span) := by
  intro σ site
  rw [lower, lower]
  dsimp only
  rw [map_fst_capturedFaces_resize]
  refine (widens_define hb).bind fun trap => ?_
  refine (Attempt.Tracks.mapM (capturedFaces_resize σ []) fun p => widens_widen p.2).bind
    fun args => ?_
  exact widens_emit (.call trap site.atom args)

lemma widensAt_bartis {sample body : Node} (hb : WidensAt w w' body) :
    WidensAt w w' (.rune .bartis [sample, body] span) := by
  intro σ site
  rw [lower, lower]
  refine (Attempt.Tracks.ofExcept (sampleFaces sample)).bind fun samples => ?_
  dsimp only [id]
  rw [map_fst_capturedFaces_resize]
  exact (widens_define hb).bind fun gate => .pure rfl

/-- A call of a built-in gate is lowered with wider atoms as it was, resized, if its arguments
are. -/
lemma widensAt_builtin {name : String} {builtin : Builtin} {place : Span} {args : List Node}
    (hname : Builtin.find? name = some builtin) (hs : ∀ arg ∈ args, WidensAt w w' arg) :
    WidensAt w w' (.rune .cenhep (.face name place :: args) span) := by
  intro σ site
  rcases args with _ | ⟨left, _ | ⟨right, _ | ⟨other, others⟩⟩⟩ <;>
    cases hconstant : builtin.constant <;>
    simp only [lower, Head.of, hname, hconstant]
  case cons.nil.some constant =>
    refine (widens_atomOperand (hs left (by simp) σ site)).bind fun v => ?_
    exact widens_emit (.binary builtin.op site.atom v (.const site.atom constant))
  case cons.cons.nil.none =>
    refine (widens_atomOperand (hs left (by simp) σ site)).bind fun v => ?_
    refine (widens_atomOperand (hs right (by simp) σ site)).bind fun v' => ?_
    exact widens_emit (.binary builtin.op site.atom v v')
  all_goals exact .fail

lemma widensAt_cenhep {target : Node} {args : List Node} (ht : WidensAt w w' target)
    (hs : ∀ arg ∈ args, WidensAt w w' arg) :
    WidensAt w w' (.rune .cenhep (target :: args) span) := by
  intro σ site
  have hcall : ∀ callee, Widens w w' (Option.map (Value.resize w w'))
      (callWith σ site span callee args.length (lowerAtoms args σ site))
      (callWith (σ.resize w w') (site.resize w w') span callee args.length
        (lowerAtoms args (σ.resize w w') (site.resize w w'))) :=
    fun callee => widens_callWith (widens_lowerAtoms hs)
  cases hhead : Head.of target with
  | here =>
      simp only [lower, hhead]
      exact hcall site.func
  | named name =>
      cases target with
      | face other place =>
          cases hname : Builtin.find? other with
          | some builtin => exact widensAt_builtin hname hs σ site
          | none =>
              simp only [lower, Head.of, hname]
              exact (widens_gate other).bind hcall
      | _ => cases hhead
  | computed =>
      simp only [lower, hhead]
      refine (widens_operand (ht σ site)).bind fun v => ?_
      cases v with
      | func callee => exact hcall callee
      | const | param | inst => exact .fail
  | refused =>
      simp only [lower, hhead]
      exact .fail

lemma widensAt_centis {target : Node} {pairs : List Node}
    (hs : ∀ pair ∈ pairs, WidensAt w w' pair) :
    WidensAt w w' (.rune .centis (target :: pairs) span) := by
  intro σ site
  have hcall : ∀ callee, Widens w w' (Option.map (Value.resize w w'))
      (callNamed pairs σ site span callee)
      (callNamed pairs (σ.resize w w') (site.resize w w') span callee) := by
    intro callee
    refine (Attempt.Tracks.ofExcept (checkPairs span pairs)).bind fun _ => ?_
    refine (widens_paramNames callee).bind fun params => ?_
    refine (Attempt.Tracks.mapM (List.map_id _) (widens_lowerNamed hs)).bind fun args => ?_
    exact widens_emit (.call callee site.atom args)
  rw [lower_centis, lower_centis]
  cases Head.of target with
  | here => exact hcall site.func
  | named name => exact (widens_gate name).bind hcall
  | computed | refused => exact .fail

/-- **Lowering a tree with wider atoms is lowering it as it was, resized**, unless a numeral did not
fit. -/
theorem widens_lower (h : w ≤ w') (node : Node) : WidensAt w w' node := by
  induction node using Node.induction with
  | buc span => exact fun σ site => .pure rfl
  | pat span | dot span | cell head tail span => exact fun σ site => .fail
  | face name span =>
      intro σ site
      rw [lower, lower, Subject.get?_resize]
      cases σ.get? name with
      | none => exact .fail
      | some v => exact .pure rfl
  | faced label value span ih =>
      intro σ site
      rw [lower, lower]
      exact ih σ site
  | num digits span =>
      intro σ site
      rw [lower, lower]
      exact (widens_numeral h site.atom digits).bind fun v => .pure rfl
  | rune r args span ih =>
      cases r, args using lowering with
      | dottis left right =>
          intro σ site
          rw [lower, lower]
          refine (widens_atomOperand (ih left (by simp) σ site)).bind fun v => ?_
          refine (widens_atomOperand (ih right (by simp) σ site)).bind fun v' => ?_
          exact widens_emit (.icmpEq site.atom v v')
      | dotlus value =>
          intro σ site
          rw [lower, lower]
          refine (widens_atomOperand (ih value (by simp) σ site)).bind fun v => ?_
          exact widens_emit (.binary .add site.atom v (.const site.atom 1))
      | tisfas name value body =>
          exact widensAt_tisfas (ih value (by simp)) (ih body (by simp))
      | wutcol test yes no =>
          exact widensAt_wutcol (ih test (by simp)) (ih yes (by simp)) (ih no (by simp))
      | barhep body => exact widensAt_barhep (ih body (by simp))
      | bartis sample body => exact widensAt_bartis (ih body (by simp))
      | cenhep target args =>
          rw [List.forall_mem_cons] at ih
          exact widensAt_cenhep ih.1 ih.2
      | centis target pairs =>
          rw [List.forall_mem_cons] at ih
          exact widensAt_centis ih.2
      | uncoded r args hcode hfail =>
          intro σ site
          rw [hfail, hfail]
          exact .fail

/-! ## Modules -/

lemma widens_lowerEntry (h : w ≤ w') (entry : String) (node : Node) :
    Widens w w' id (lowerEntry (.int w) entry node) (lowerEntry (.int w') entry node) := by
  have hatom : Ty.resize w w' (.int w) = .int w' := Ty.resize_self
  rw [← hatom]
  refine (Build.tracks_addEntry entry (.int w)).bind fun func => ?_
  refine (Build.tracks_addBlock func).bind fun block => ?_
  refine (widens_lower h node .empty ⟨.int w, func, block⟩).bind fun r => ?_
  exact (widens_finish r).bind fun _ => .pure rfl

/-- The module of a tree with wider atoms is its module resized, unless a numeral did not fit. -/
lemma toModule_resize (h : w ≤ w') (entry : String) (node : Node) :
    (∃ e, node.toModule (.int w) entry = .error e ∧ e.isMisfit = true) ∨
      node.toModule (.int w') entry =
        (node.toModule (.int w) entry).map (Module.resize w w') := by
  have hempty : Module.resize w w' .empty = .empty := rfl
  have hentry := widens_lowerEntry h entry node .empty
  rw [hempty] at hentry
  unfold Node.toModule
  rcases hrun : lowerEntry (.int w) entry node .empty with ⟨e | func, m⟩
  · rw [hrun] at hentry
    rcases hentry with ⟨e', he, hmisfit⟩ | hentry
    · cases he
      exact .inl ⟨e, rfl, hmisfit⟩
    · rw [hentry]
      exact .inr rfl
  · rw [hrun] at hentry
    rcases hentry with ⟨e', he, -⟩ | hentry
    · cases he
    · refine .inr ?_
      rw [hentry]
      dsimp only [Except.map]
      rw [Module.verify_resize]
      cases m.verify <;> rfl

end Lowering

/-! ## Compiling -/

/-- The artifact that `compile` makes of a canonical form. -/
def assemble (atom : Ty) (entry : String) (canonical : Node) : Except Error Artifact := do
  let module ← canonical.toModule atom entry
  let ir ← module.render
  return ⟨ir, canonical, module.functions.length⟩

/-- The width of atoms matters to `compile` only from `assemble` on. -/
lemma compile_eq_assemble (hw : w ∈ atomWidths) (source entry : String) :
    compile source ⟨w, entry⟩ = parse source >>= reduce >>= assemble (.int w) entry := by
  rw [compile, Options.atom, if_pos hw]
  cases parse source <;> rfl

/-- A module has a text exactly if the resized one has, and the same error otherwise. -/
lemma render_resize (w w' : Nat) (m : Module) :
    (∃ text text', m.render = .ok text ∧ (m.resize w w').render = .ok text') ∨
      ∃ e, m.render = .error e ∧ (m.resize w w').render = .error e := by
  unfold Module.render
  rw [Module.verify_resize]
  cases m.verify with
  | ok _ => exact .inl ⟨_, _, rfl, rfl⟩
  | error e => exact .inr ⟨e, rfl, rfl⟩

/-- The module `m` is that of the canonical form of the artifact, whose text and number of functions
are those of `m`. -/
structure Artifact.IsOf (a : Artifact) (atom : Ty) (entry : String) (m : Module) : Prop where
  module : a.canonical.toModule atom entry = .ok m
  text : m.render = .ok a.ir
  count : m.functions.length = a.functions

lemma assemble_wider_ok {entry : String} {c : Node} {a : Artifact} (h : w ≤ w')
    (ha : assemble (.int w) entry c = .ok a) :
    ∃ a' m, assemble (.int w') entry c = .ok a' ∧ a'.canonical = a.canonical ∧
      a.IsOf (.int w) entry m ∧ a'.IsOf (.int w') entry (m.resize w w') := by
  obtain ⟨m, hm, ha⟩ := bind_eq_ok.1 ha
  obtain ⟨ir, hrender, rfl⟩ := bind_pure_eq_ok.1 ha
  rcases Lowering.toModule_resize h entry c with ⟨e, he, -⟩ | hwide
  · rw [hm] at he
    cases he
  · rw [hm] at hwide
    rcases render_resize w w' m with ⟨text, text', -, hrender'⟩ | ⟨e, he, -⟩
    · refine ⟨⟨text', c, (m.resize w w').functions.length⟩, m, ?_, rfl, ⟨hm, hrender, rfl⟩,
        ⟨hwide, hrender', rfl⟩⟩
      rw [assemble, hwide]
      simp only [Except.map, bind, Except.bind, hrender']
      rfl
    · rw [hrender] at he
      cases he

lemma assemble_wider_error {entry : String} {c : Node} {e : Error} (h : w ≤ w')
    (he : assemble (.int w) entry c = .error e) (hfit : e.isMisfit = false) :
    assemble (.int w') entry c = .error e := by
  rcases Lowering.toModule_resize h entry c with ⟨e', he', hmisfit⟩ | hwide
  · rw [assemble, he'] at he
    cases he
    rw [hmisfit] at hfit
    cases hfit
  · rw [assemble, hwide]
    rcases bind_eq_error.1 he with hm | ⟨m, hm, hrender⟩
    · rw [hm]
      rfl
    · rw [bind_pure_eq_error] at hrender
      rw [hm]
      rcases render_resize w w' m with ⟨text, text', hrender', -⟩ | ⟨e', he', hwide'⟩
      · rw [hrender] at hrender'
        cases hrender'
      · rw [hrender] at he'
        cases he'
        exact bind_pure_eq_error.2 hwide'

/-- **Wider atoms change nothing but types.**  A source that compiles does so with wider atoms, to
the same canonical tree and to the same module with wider integers.  One that fails for another
reason than a numeral that does not fit fails with wider atoms for the same reason. -/
theorem compile_wider {w w' : Nat} (hw : w ∈ atomWidths) (hw' : w' ∈ atomWidths) (h : w ≤ w')
    (source entry : String) :
    (∀ a, compile source ⟨w, entry⟩ = .ok a →
      ∃ a' m, compile source ⟨w', entry⟩ = .ok a' ∧ a'.canonical = a.canonical ∧
        a.IsOf (.int w) entry m ∧ a'.IsOf (.int w') entry (m.resize w w')) ∧
    ∀ e, compile source ⟨w, entry⟩ = .error e → e.isMisfit = false →
      compile source ⟨w', entry⟩ = .error e := by
  rw [compile_eq_assemble hw, compile_eq_assemble hw']
  cases parse source >>= reduce with
  | error e =>
      refine ⟨fun a ha => ?_, fun e' he _ => he⟩
      cases ha
  | ok c => exact ⟨fun a => assemble_wider_ok h, fun e => assemble_wider_error h⟩

/-- A source with a gate, a loop and a conditional. -/
def factorial : String :=
  "=/(n 5 =/(step |=(a=@ (dec a)) =/(acc 1 |-(?:(=(n 0) acc $(n (step n), acc (mul acc n)))))))"

theorem compile_wider_factorial :
    (∃ a a' m, compile factorial ⟨8, "main"⟩ = .ok a ∧ compile factorial ⟨64, "main"⟩ = .ok a' ∧
      a'.canonical = a.canonical ∧ a.IsOf (.int 8) "main" m ∧
      a'.IsOf (.int 64) "main" (m.resize 8 64)) ∧
    compile "=/(x y 300)" ⟨64, "main"⟩ = .error (.lower ⟨5, 6⟩ (.unboundFace "y")) := by
  have h8 : 8 ∈ atomWidths := by decide
  have h64 : 64 ∈ atomWidths := by decide
  obtain ⟨hok, -⟩ := compile_wider h8 h64 (by decide) factorial "main"
  have hrun : (compile factorial ⟨8, "main"⟩).toOption.any (fun _ => true) = true := by
    decide +kernel
  obtain ⟨a, ha, -⟩ := exists_of_any_toOption hrun
  obtain ⟨a', m, h⟩ := hok a ha
  have herror : compile "=/(x y 300)" ⟨8, "main"⟩ =
      .error (.lower ⟨5, 6⟩ (.unboundFace "y")) := by
    decide +kernel
  obtain ⟨-, hfail⟩ := compile_wider h8 h64 (by decide) "=/(x y 300)" "main"
  exact ⟨⟨a, a', m, ha, h⟩, hfail _ herror rfl⟩

end Runic
