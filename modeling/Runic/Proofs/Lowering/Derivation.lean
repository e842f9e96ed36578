import Runic.Lowering.Lower
import Runic.Proofs.Ir.Growth
import Runic.Proofs.Lowering.Subject

/-!
# Successful lowering, rule by rule

`lower` is a program that may fail at every step.  What is proved about the code it makes is about
its successes only, and for those the rules below say the whole of what happens: which trees are
lowered under which subject, in which order, and which operations are appended between them.

* `Lowers` — a tree, from one module to the next, with the operand it leaves.
* `LowersArgs` — the arguments of a call.  `%-` and `%=` differ only in where an argument comes
  from (`Source`): from a tree, or from a face of the subject.
* `LowersBody` — a tree whose value is returned from the function it stands in.
* `LowersCallee` — the head of a call.

`lowers_of_lower` leads from the program to the rules, so that an invariant of lowering is an
induction over them.
-/

namespace Runic

open Ir

namespace Lowering

/-- Where an argument of a call comes from: a tree, or a face of the subject. -/
inductive Source where
  | tree (node : Node)
  | face (name : String) (span : Span)

/-- The source of the parameter `name` in a call by names: the first pair of this name, or else the
face of the subject. -/
def Source.named (span : Span) (name : String) : List Node → Source
  | .face label _ :: value :: rest =>
    if label = name then .tree value else Source.named span name rest
  | _ => .face name span

/-- The sources of a call by position: faces of the subject for the first parameters, and the trees
`args` for the last ones. -/
def Source.positional (span : Span) (params : List String) (args : List Node) : List Source :=
  (params.take (params.length - args.length)).map (.face · span) ++ args.map .tree

/-- The site at the first block of the function `func`. -/
def entrySite (atom : Ty) (func : FuncId) : Site := ⟨atom, func, 0⟩

mutual

/-- The rules of lowering as a relation: lowering the tree under the subject at the site takes the
first module to the second, and leaves an operand unless it closes the block. -/
inductive Lowers : Node → Subject → Site → Module → Option Value → Module → Prop
  | num {digits span σ site m v} (value : numeral site.atom digits span = .ok v) :
      Lowers (.num digits span) σ site m (some v) m
  | face {name span σ site m v} (bound : σ.get? name = some v) :
      Lowers (.face name span) σ site m (some v) m
  | buc {span σ site m} : Lowers (.buc span) σ site m (some (.func site.func)) m
  | faced {label value span σ site m r m'} (body : Lowers value σ site m r m') :
      Lowers (.faced label value span) σ site m r m'
  | dottis {left right span σ site m l r m₁ v m₂}
      (args : LowersArgs [.tree left, .tree right] σ site m [l, r] m₁)
      (app : Build.append site.func site.block (.icmpEq site.atom l r) m₁ = (.ok v, m₂)) :
      Lowers (.rune .dottis [left, right] span) σ site m (some v) m₂
  | dotlus {node span σ site m a m₁ v m₂}
      (args : LowersArgs [.tree node] σ site m [a] m₁)
      (app : Build.append site.func site.block
        (.binary .add site.atom a (.const site.atom 1)) m₁ = (.ok v, m₂)) :
      Lowers (.rune .dotlus [node] span) σ site m (some v) m₂
  | tisfas {face faceSpan value body span σ site m v m₁ r m₂}
      (bound : Lowers value σ site m (some v) m₁)
      (rest : Lowers body (σ.bind face v) site m₁ r m₂) :
      Lowers (.rune .tisfas [.face face faceSpan, value, body] span) σ site m r m₂
  | wutcol {test yes no span σ site m cond m₁ F m₂ m₃ m₄}
      (condition : Lowers test σ site m (some cond) m₁) (bool : cond.ty? = some .bool)
      (func : m₁.functions[site.func]? = some F)
      (branch : Build.terminate site.func site.block
        (.condBr cond F.blocks.length (F.blocks.length + 1)) (m₁.put site.func F.open.open) =
          (.ok (), m₂))
      (then_ : LowersBody yes σ { site with block := F.blocks.length } m₂ m₃)
      (else_ : LowersBody no σ { site with block := F.blocks.length + 1 } m₃ m₄) :
      Lowers (.rune .wutcol [test, yes, no] span) σ site m none m₄
  | barhep {body span σ site m m₁ as m₂ v m₃}
      (trap : LowersBody body
        (innerSubject σ [] (atomParams site.atom ((capturedFaces σ []).map Prod.fst)))
        (entrySite site.atom m.functions.length)
        (m.withInternal (atomParams site.atom ((capturedFaces σ []).map Prod.fst)) site.atom) m₁)
      (args : LowersArgs (((capturedFaces σ []).map Prod.fst).map (.face · span)) σ site m₁ as m₂)
      (app : Build.append site.func site.block (.call m.functions.length site.atom as) m₂ =
        (.ok v, m₃)) :
      Lowers (.rune .barhep [body] span) σ site m (some v) m₃
  | bartis {sample body span σ site m samples m₁}
      (mold : sampleFaces sample = .ok samples)
      (gate : LowersBody body
        (innerSubject σ samples
          (atomParams site.atom ((capturedFaces σ samples).map Prod.fst ++ samples)))
        (entrySite site.atom m.functions.length)
        (m.withInternal
          (atomParams site.atom ((capturedFaces σ samples).map Prod.fst ++ samples)) site.atom)
        m₁) :
      Lowers (.rune .bartis [sample, body] span) σ site m (some (.func m.functions.length)) m₁
  | unary {name nameSpan builtin constant node span σ site m a m₁ v m₂}
      (known : Builtin.find? name = some builtin) (implicit : builtin.constant = some constant)
      (args : LowersArgs [.tree node] σ site m [a] m₁)
      (app : Build.append site.func site.block
        (.binary builtin.op site.atom a (.const site.atom constant)) m₁ = (.ok v, m₂)) :
      Lowers (.rune .cenhep [.face name nameSpan, node] span) σ site m (some v) m₂
  | binary {name nameSpan builtin left right span σ site m l r m₁ v m₂}
      (known : Builtin.find? name = some builtin) (explicit : builtin.constant = none)
      (args : LowersArgs [.tree left, .tree right] σ site m [l, r] m₁)
      (app : Build.append site.func site.block (.binary builtin.op site.atom l r) m₁ =
        (.ok v, m₂)) :
      Lowers (.rune .cenhep [.face name nameSpan, left, right] span) σ site m (some v) m₂
  | cenhep {target args span σ site m callee m₁ F as m₂ v m₃}
      (unknown : ∀ name nameSpan, target = .face name nameSpan → Builtin.find? name = none)
      (head : LowersCallee target σ site m callee m₁)
      (func : m₁.functions[callee]? = some F) (enough : args.length ≤ F.params.length)
      (sources : LowersArgs (Source.positional span (F.params.map Param.name) args) σ site m₁ as m₂)
      (app : Build.append site.func site.block (.call callee site.atom as) m₂ = (.ok v, m₃)) :
      Lowers (.rune .cenhep (target :: args) span) σ site m (some v) m₃
  | centis {target pairs span σ site m callee F as m₁ v m₂}
      (named : Head.of target ≠ .computed) (head : LowersCallee target σ site m callee m)
      (checked : checkPairs span pairs = .ok ())
      (func : m.functions[callee]? = some F)
      (sources : LowersArgs ((F.params.map Param.name).map (Source.named span · pairs)) σ site m
        as m₁)
      (app : Build.append site.func site.block (.call callee site.atom as) m₁ = (.ok v, m₂)) :
      Lowers (.rune .centis (target :: pairs) span) σ site m (some v) m₂

/-- The sources are lowered from left to right, each to an atom. -/
inductive LowersArgs : List Source → Subject → Site → Module → List Value → Module → Prop
  | nil {σ site m} : LowersArgs [] σ site m [] m
  | tree {node rest σ site m v m₁ a m₂ as m₃}
      (value : Lowers node σ site m (some v) m₁) (atom : widen site node.span v m₁ = (.ok a, m₂))
      (others : LowersArgs rest σ site m₂ as m₃) :
      LowersArgs (.tree node :: rest) σ site m (a :: as) m₃
  | face {name span rest σ site m v a m₁ as m₂}
      (bound : σ.get? name = some v) (atom : widen site span v m = (.ok a, m₁))
      (others : LowersArgs rest σ site m₁ as m₂) :
      LowersArgs (.face name span :: rest) σ site m (a :: as) m₂

/-- A tree is lowered, and its value is returned if the block is still open. -/
inductive LowersBody : Node → Subject → Site → Module → Module → Prop
  | mk {node σ site m r m₁ m₂} (body : Lowers node σ site m r m₁)
      (fin : finish site node.span r m₁ = (.ok (), m₂)) : LowersBody node σ site m m₂

/-- The tree at the head of a call stands for the function `FuncId`. -/
inductive LowersCallee : Node → Subject → Site → Module → FuncId → Module → Prop
  | here {target σ site m} (is : Head.of target = .here) :
      LowersCallee target σ site m site.func m
  | named {name span σ site m id} (bound : σ.get? name = some (.func id)) :
      LowersCallee (.face name span) σ site m id m
  | computed {rune args span σ site m id m₁}
      (value : Lowers (.rune rune args span) σ site m (some (.func id)) m₁) :
      LowersCallee (.rune rune args span) σ site m id m₁

end

/-! ## The parts of the program -/

lemma emit_eq_ok {site : Site} {op : Operation} {m m' : Module} {r : Option Value} :
    emit site op m = (.ok r, m') ↔
      ∃ v, Build.append site.func site.block op m = (.ok v, m') ∧ r = some v := by
  simp only [emit, Attempt.bind_eq_ok, Attempt.pure_apply, Prod.mk.injEq, Except.ok.injEq]
  constructor
  · rintro ⟨v, u, h, rfl, rfl⟩
    exact ⟨v, h, rfl⟩
  · rintro ⟨v, h, rfl⟩
    exact ⟨v, m', h, rfl, rfl⟩

lemma operand_eq_ok {span : Span} {x : Build (Option Value)} {m m' : Module} {v : Value} :
    operand span x m = (.ok v, m') ↔ x m = (.ok (some v), m') := by
  simp only [operand, Attempt.bind_eq_ok]
  constructor
  · rintro ⟨r, u, hx, h⟩
    cases r with
    | none => simp [fail] at h
    | some w =>
        simp only [Attempt.pure_apply, Prod.mk.injEq, Except.ok.injEq] at h
        rw [hx, h.1, h.2]
  · intro h
    exact ⟨some v, m', h, rfl⟩

lemma atomOperand_eq_ok {site : Site} {span : Span} {x : Build (Option Value)} {m m' : Module}
    {a : Value} :
    atomOperand site span x m = (.ok a, m') ↔
      ∃ v m₁, x m = (.ok (some v), m₁) ∧ widen site span v m₁ = (.ok a, m') := by
  simp only [atomOperand, Attempt.bind_eq_ok, operand_eq_ok]

lemma subjectAtom_eq_ok {σ : Subject} {site : Site} {span : Span} {name : String}
    {m m' : Module} {a : Value} :
    subjectAtom σ site span name m = (.ok a, m') ↔
      ∃ v, σ.get? name = some v ∧ widen site span v m = (.ok a, m') := by
  unfold subjectAtom
  cases σ.get? name <;> simp [fail]

lemma gate_eq_ok {σ : Subject} {span : Span} {name : String} {m m' : Module} {id : FuncId} :
    gate σ span name m = (.ok id, m') ↔ σ.get? name = some (.func id) ∧ m' = m := by
  unfold gate
  cases h : σ.get? name with
  | none => simp [fail]
  | some v => cases v <;> simp [fail, eq_comm]

lemma paramNames_eq_ok {callee : FuncId} {m m' : Module} {names : List String} :
    paramNames callee m = (.ok names, m') ↔
      ∃ F, m.functions[callee]? = some F ∧ names = F.params.map Param.name ∧ m' = m := by
  unfold paramNames Build.function Module.function
  simp only [Attempt.bind_eq_ok, Attempt.get_apply, Attempt.pure_apply, Prod.mk.injEq,
    Except.ok.injEq]
  cases hF : m.functions[callee]? with
  | none =>
      constructor
      · rintro ⟨_, _, ⟨_, _, ⟨rfl, rfl⟩, h⟩, _⟩
        simp [hF, Attempt.ofExcept] at h
      · rintro ⟨_, h, _⟩
        exact absurd h (by simp)
  | some F =>
      constructor
      · rintro ⟨_, _, ⟨_, _, ⟨rfl, rfl⟩, h⟩, rfl, rfl⟩
        simp only [hF, Attempt.ofExcept, Attempt.pure_apply, Prod.mk.injEq, Except.ok.injEq] at h
        exact ⟨F, rfl, by rw [h.1], h.2.symm⟩
      · rintro ⟨G, hG, rfl, rfl⟩
        rw [Option.some.injEq] at hG
        subst hG
        exact ⟨F, m', ⟨m', m', ⟨rfl, rfl⟩, by simp [hF, Attempt.ofExcept]⟩, rfl, rfl⟩

/-- The exact cases in which `numeral` succeeds: the type of atoms is an integer type that the
number fits. -/
lemma numeral_eq_ok {atom : Ty} {digits : String} {span : Span} {v : Value} :
    numeral atom digits span = .ok v ↔
      ∃ bits n, atom = .int bits ∧ numeralValue? bits digits = some n ∧ v = .const atom n := by
  unfold numeral
  cases atom with
  | bool => simp
  | int bits =>
      cases h : numeralValue? bits digits <;> simp [h, eq_comm]

/-- The exact cases in which `widen` succeeds: a truth value is extended by an instruction, and an
atom stays as it is. -/
lemma widen_eq_ok {site : Site} {span : Span} {v a : Value} {m m' : Module} :
    widen site span v m = (.ok a, m') ↔
      (v.ty? = some .bool ∧
        Build.append site.func site.block (.zext v site.atom) m = (.ok a, m')) ∨
      (∃ bits, v.ty? = some (.int bits) ∧ a = v ∧ m' = m) := by
  unfold widen
  cases h : v.ty? with
  | none => simp [fail]
  | some ty => cases ty <;> simp [eq_comm]

/-- The exact cases in which `finish` succeeds: there is no value, or it is returned as an atom. -/
lemma finish_eq_ok {site : Site} {span : Span} {r : Option Value} {m m' : Module} :
    finish site span r m = (.ok (), m') ↔
      (r = none ∧ m' = m) ∨ ∃ v a m₁, r = some v ∧ widen site span v m = (.ok a, m₁) ∧
        Build.terminate site.func site.block (.ret a) m₁ = (.ok (), m') := by
  cases r with
  | none => simp [finish, eq_comm]
  | some v => simp [finish, Attempt.bind_eq_ok]

/-! ## From the program to the rules -/

lemma LowersArgs.append {xs ys : List Source} {σ : Subject} {site : Site} {m₂ m₃ : Module}
    {bs : List Value} (h' : LowersArgs ys σ site m₂ bs m₃) :
    ∀ {m₁ : Module} {as : List Value}, LowersArgs xs σ site m₁ as m₂ →
      LowersArgs (xs ++ ys) σ site m₁ (as ++ bs) m₃ := by
  induction xs with
  | nil =>
      rintro m₁ as ⟨⟩
      exact h'
  | cons x xs ih =>
      rintro m₁ as (_ | ⟨value, atom, others⟩ | ⟨bound, atom, others⟩)
      · exact .tree value atom (ih others)
      · exact .face bound atom (ih others)

lemma lowersArgs_of_faces {σ : Subject} {site : Site} {span : Span} {names : List String} :
    ∀ {m m' : Module} {as : List Value},
      names.mapM (subjectAtom σ site span) m = (.ok as, m') →
      LowersArgs (names.map (.face · span)) σ site m as m' := by
  induction names with
  | nil =>
      intro m m' as h
      simp only [List.mapM_nil, Attempt.pure_apply, Prod.mk.injEq, Except.ok.injEq] at h
      obtain ⟨rfl, rfl⟩ := h
      exact .nil
  | cons name names ih =>
      intro m m' as h
      simp only [List.mapM_cons, Attempt.bind_eq_ok, subjectAtom_eq_ok, Attempt.pure_apply,
        Prod.mk.injEq, Except.ok.injEq] at h
      obtain ⟨a, m₁, ⟨v, bound, atom⟩, as', m₂, hrest, rfl, rfl⟩ := h
      exact .face bound atom (ih hrest)

/-- Widening the captured faces of a trap is lowering arguments that come from the subject. -/
lemma lowersArgs_of_captured {σ : Subject} {site : Site} {span : Span}
    {captured : List (String × Value)} (hget : ∀ b ∈ captured, σ.get? b.1 = some b.2) :
    ∀ {m m' : Module} {as : List Value},
      captured.mapM (fun b => widen site span b.2) m = (.ok as, m') →
      LowersArgs ((captured.map Prod.fst).map (.face · span)) σ site m as m' := by
  induction captured with
  | nil =>
      intro m m' as h
      simp only [List.mapM_nil, Attempt.pure_apply, Prod.mk.injEq, Except.ok.injEq] at h
      obtain ⟨rfl, rfl⟩ := h
      exact .nil
  | cons b captured ih =>
      intro m m' as h
      simp only [List.mapM_cons, Attempt.bind_eq_ok, Attempt.pure_apply, Prod.mk.injEq,
        Except.ok.injEq] at h
      obtain ⟨a, m₁, atom, as', m₂, hrest, rfl, rfl⟩ := h
      exact .face (hget b List.mem_cons_self) atom
        (ih (fun c hc => hget c (List.mem_cons_of_mem _ hc)) hrest)

/-- Whenever `lower` succeeds on the tree, `Lowers` holds of it. -/
def Sound (node : Node) : Prop :=
  ∀ {σ : Subject} {site : Site} {m m' : Module} {r : Option Value},
    lower node σ site m = (.ok r, m') → Lowers node σ site m r m'

lemma lowersArgs_of_lowerAtoms {σ : Subject} {site : Site} {nodes : List Node}
    (hs : ∀ node ∈ nodes, Sound node) : ∀ {m m' : Module} {as : List Value},
      lowerAtoms nodes σ site m = (.ok as, m') →
      LowersArgs (nodes.map .tree) σ site m as m' := by
  induction nodes with
  | nil =>
      intro m m' as h
      simp only [lowerAtoms, Attempt.pure_apply, Prod.mk.injEq, Except.ok.injEq] at h
      obtain ⟨rfl, rfl⟩ := h
      exact .nil
  | cons node nodes ih =>
      intro m m' as h
      simp only [lowerAtoms, Attempt.bind_eq_ok, atomOperand_eq_ok, Attempt.pure_apply,
        Prod.mk.injEq, Except.ok.injEq] at h
      obtain ⟨a, m₁, ⟨v, m₀, hv, atom⟩, as', m₂, hrest, rfl, rfl⟩ := h
      exact .tree (hs node List.mem_cons_self hv) atom
        (ih (fun n hn => hs n (List.mem_cons_of_mem _ hn)) hrest)

lemma lowersArgs_of_lowerNamed {σ : Subject} {site : Site} {span : Span} {name : String}
    {pairs : List Node} (hs : ∀ node ∈ pairs, Sound node) {m m₁ m₂ : Module} {a : Value}
    {xs : List Source} {as : List Value}
    (h : lowerNamed pairs name σ site span m = (.ok a, m₁))
    (hrest : LowersArgs xs σ site m₁ as m₂) :
    LowersArgs (Source.named span name pairs :: xs) σ site m (a :: as) m₂ := by
  fun_induction Source.named span name pairs with
  | case1 labelSpan value rest =>
      rw [lowerNamed, if_pos rfl, atomOperand_eq_ok] at h
      obtain ⟨v, m₀, hv, atom⟩ := h
      exact .tree (hs value (by simp) hv) atom hrest
  | case2 label labelSpan value rest hne ih =>
      rw [lowerNamed, if_neg hne] at h
      exact ih (fun n hn => hs n (by simp [hn])) h
  | case3 pairs hnot =>
      rw [lowerNamed, subjectAtom_eq_ok] at h
      · obtain ⟨v, bound, atom⟩ := h
        exact .face bound atom hrest
      · exact hnot

lemma lowersArgs_of_mapM_lowerNamed {σ : Subject} {site : Site} {span : Span}
    {pairs : List Node} (hs : ∀ node ∈ pairs, Sound node) {names : List String} :
    ∀ {m m' : Module} {as : List Value},
      names.mapM (fun name => lowerNamed pairs name σ site span) m = (.ok as, m') →
      LowersArgs (names.map (Source.named span · pairs)) σ site m as m' := by
  induction names with
  | nil =>
      intro m m' as h
      simp only [List.mapM_nil, Attempt.pure_apply, Prod.mk.injEq, Except.ok.injEq] at h
      obtain ⟨rfl, rfl⟩ := h
      exact .nil
  | cons name names ih =>
      intro m m' as h
      simp only [List.mapM_cons, Attempt.bind_eq_ok, Attempt.pure_apply, Prod.mk.injEq,
        Except.ok.injEq] at h
      obtain ⟨a, m₁, ha, as', m₂, hrest, rfl, rfl⟩ := h
      exact lowersArgs_of_lowerNamed hs ha (ih hrest)

/-- If `define` succeeds, it has lowered the body in a new function. -/
lemma lowersBody_of_define {atom : Ty} {σ : Subject} {captured samples : List String}
    {body : Node} (hs : Sound body) {m m' : Module} {func : FuncId}
    (h : define atom σ captured samples body.span (fun σ site => lower body σ site) m =
      (.ok func, m')) :
    func = m.functions.length ∧
      LowersBody body (innerSubject σ samples (atomParams atom (captured ++ samples)))
        (entrySite atom m.functions.length)
        (m.withInternal (atomParams atom (captured ++ samples)) atom) m' := by
  rw [define, Build.addInternal_addBlock] at h
  simp only [Attempt.bind_eq_ok, Attempt.pure_apply, Prod.mk.injEq, Except.ok.injEq] at h
  obtain ⟨r, m₁, hbody, u, m₂, hfin, hfunc, rfl⟩ := h
  exact ⟨hfunc.symm, .mk (hs hbody) hfin⟩

/-- A call by position that succeeds follows the rule for it. -/
lemma lowers_of_callWith {target : Node} {args : List Node} {span : Span} {σ : Subject}
    {site : Site} {callee : FuncId} {m m₁ m' : Module} {r : Option Value}
    (hs : ∀ node ∈ args, Sound node)
    (unknown : ∀ name nameSpan, target = .face name nameSpan → Builtin.find? name = none)
    (head : LowersCallee target σ site m callee m₁)
    (h : callWith σ site span callee args.length (lowerAtoms args σ site) m₁ = (.ok r, m')) :
    Lowers (.rune .cenhep (target :: args) span) σ site m r m' := by
  simp only [callWith, Attempt.bind_eq_ok, paramNames_eq_ok] at h
  obtain ⟨names, _, ⟨F, func, rfl, rfl⟩, h⟩ := h
  split at h
  · simp [fail] at h
  · next enough =>
      simp only [Attempt.bind_eq_ok, emit_eq_ok] at h
      obtain ⟨first, m₂, hfirst, last, m₃, hlast, v, app, rfl⟩ := h
      refine .cenhep unknown head func (by simpa using enough) ?_ app
      exact (lowersArgs_of_lowerAtoms hs hlast).append (lowersArgs_of_faces hfirst)

section Runes

variable {span : Span}

lemma sound_dottis {left right : Node} (hl : Sound left) (hr : Sound right) :
    Sound (.rune .dottis [left, right] span) := by
  intro σ site m m' r h
  simp only [lower, Attempt.bind_eq_ok, atomOperand_eq_ok, emit_eq_ok] at h
  obtain ⟨a, _, ⟨va, _, hva, wa⟩, b, _, ⟨vb, _, hvb, wb⟩, v, app, rfl⟩ := h
  exact .dottis (.tree (hl hva) wa (.tree (hr hvb) wb .nil)) app

lemma sound_dotlus {node : Node} (hn : Sound node) : Sound (.rune .dotlus [node] span) := by
  intro σ site m m' r h
  simp only [lower, Attempt.bind_eq_ok, atomOperand_eq_ok, emit_eq_ok] at h
  obtain ⟨a, _, ⟨va, _, hva, wa⟩, v, app, rfl⟩ := h
  exact .dotlus (.tree (hn hva) wa .nil) app

lemma sound_tisfas {name value body : Node} (hv : Sound value) (hb : Sound body) :
    Sound (.rune .tisfas [name, value, body] span) := by
  intro σ site m m' r h
  cases name with
  | face face faceSpan =>
      simp only [lower, Attempt.bind_eq_ok, operand_eq_ok] at h
      obtain ⟨v, m₁, hval, hbody⟩ := h
      exact .tisfas (hv hval) (hb hbody)
  | _ => simp [lower, fail] at h

/-- A conditional follows its rule.  Both new blocks are opened before the branch to them closes the
old one. -/
lemma sound_wutcol {test yes no : Node} (ht : Sound test) (hy : Sound yes) (hn : Sound no) :
    Sound (.rune .wutcol [test, yes, no] span) := by
  intro σ site m m' r h
  simp only [lower, Attempt.bind_eq_ok, operand_eq_ok] at h
  obtain ⟨cond, m₁, hcond, h⟩ := h
  split at h
  · next bool =>
      simp only [Attempt.bind_eq_ok, Build.addBlock_eq_ok, Attempt.pure_apply, Prod.mk.injEq,
        Except.ok.injEq] at h
      obtain ⟨_, _, ⟨F, hF, rfl, rfl⟩, _, _, ⟨F', hF', rfl, rfl⟩, _, m₂, branch, r₁, m₃, hyes, _,
        m₄, finYes, r₂, m₅, hno, _, m₆, finNo, rfl, rfl⟩ := h
      have hlt : site.func < m₁.functions.length := (List.getElem?_eq_some_iff.1 hF).1
      have hF₁ : F' = F.open := by
        simpa [Module.put, hlt, eq_comm] using hF'
      subst hF₁
      have hlen : F.open.blocks.length = F.blocks.length + 1 := by simp [Function.open]
      rw [hlen] at branch hno finNo
      refine .wutcol (ht hcond) bool hF ?_ (.mk (hy hyes) finYes) (.mk (hn hno) finNo)
      simpa [Module.put] using branch
  · simp [fail] at h

lemma sound_barhep {body : Node} (hb : Sound body) : Sound (.rune .barhep [body] span) := by
  intro σ site m m' r h
  simp only [lower, Attempt.bind_eq_ok, emit_eq_ok] at h
  obtain ⟨trap, m₁, hdef, as, m₂, hargs, v, app, rfl⟩ := h
  obtain ⟨rfl, hbody⟩ := lowersBody_of_define hb hdef
  rw [List.append_nil] at hbody
  refine .barhep hbody (lowersArgs_of_captured ?_ hargs) app
  intro b hmem
  exact (mem_capturedFaces.1 hmem).1

lemma sound_bartis {sample body : Node} (hb : Sound body) :
    Sound (.rune .bartis [sample, body] span) := by
  intro σ site m m' r h
  simp only [lower, Attempt.bind_eq_ok, Attempt.pure_apply, Prod.mk.injEq, Except.ok.injEq] at h
  obtain ⟨samples, _, hmold, gate, _, hdef, rfl, rfl⟩ := h
  cases hs : sampleFaces sample with
  | error e => simp [hs, Attempt.ofExcept] at hmold
  | ok found =>
      simp only [hs, Attempt.ofExcept, Attempt.pure_apply, Prod.mk.injEq, Except.ok.injEq] at hmold
      obtain ⟨rfl, rfl⟩ := hmold
      obtain ⟨rfl, hbody⟩ := lowersBody_of_define hb hdef
      exact .bartis hs hbody

lemma sound_builtin {name : String} {nameSpan : Span} {builtin : Builtin} {args : List Node}
    (hs : ∀ arg ∈ args, Sound arg) (known : Builtin.find? name = some builtin) :
    Sound (.rune .cenhep (.face name nameSpan :: args) span) := by
  intro σ site m m' r h
  simp only [lower, Head.of, known] at h
  cases hc : builtin.constant with
  | some constant =>
      match args, hs, h with
      | [node], hs, h =>
          simp only [hc, Attempt.bind_eq_ok, atomOperand_eq_ok, emit_eq_ok] at h
          obtain ⟨a, _, ⟨va, _, hva, wa⟩, v, app, rfl⟩ := h
          exact .unary known hc (.tree (hs node (by simp) hva) wa .nil) app
      | [], _, h | _ :: _ :: _, _, h => simp [hc, fail] at h
  | none =>
      match args, hs, h with
      | [left, right], hs, h =>
          simp only [hc, Attempt.bind_eq_ok, atomOperand_eq_ok, emit_eq_ok] at h
          obtain ⟨a, _, ⟨va, _, hva, wa⟩, b, _, ⟨vb, _, hvb, wb⟩, v, app, rfl⟩ := h
          exact .binary known hc
            (.tree (hs left (by simp) hva) wa (.tree (hs right (by simp) hvb) wb .nil)) app
      | [], _, h | [_], _, h | _ :: _ :: _ :: _, _, h => simp [hc, fail] at h

lemma sound_cenhep {target : Node} {args : List Node} (ht : Sound target)
    (hs : ∀ arg ∈ args, Sound arg) : Sound (.rune .cenhep (target :: args) span) := by
  intro σ site m m' r h
  cases target with
  | buc bucSpan =>
      simp only [lower, Head.of] at h
      exact lowers_of_callWith hs (by simp) (.here rfl) h
  | dot dotSpan =>
      simp only [lower, Head.of] at h
      exact lowers_of_callWith hs (by simp) (.here rfl) h
  | face name nameSpan =>
      cases known : Builtin.find? name with
      | some builtin => exact sound_builtin hs known h
      | none =>
          simp only [lower, Head.of, known, Attempt.bind_eq_ok, gate_eq_ok] at h
          obtain ⟨callee, _, ⟨bound, rfl⟩, h⟩ := h
          refine lowers_of_callWith hs ?_ (.named bound) h
          rintro _ _ ⟨⟩
          exact known
  | rune rune targetArgs targetSpan =>
      simp only [lower, Head.of, Attempt.bind_eq_ok, operand_eq_ok] at h
      obtain ⟨v, m₁, hv, h⟩ := h
      cases v with
      | func callee => exact lowers_of_callWith hs (by simp) (.computed (ht hv)) h
      | _ => simp [fail] at h
  | _ => simp [lower, Head.of, fail] at h

lemma sound_centis {target : Node} {pairs : List Node} (hs : ∀ pair ∈ pairs, Sound pair) :
    Sound (.rune .centis (target :: pairs) span) := by
  intro σ site m m' r h
  have hcallee : ∃ callee, Head.of target ≠ .computed ∧ LowersCallee target σ site m callee m ∧
      (do Attempt.ofExcept (checkPairs span pairs)
          let params ← paramNames callee
          let args ← params.mapM fun name => lowerNamed pairs name σ site span
          emit site (.call callee site.atom args) : Build (Option Value)) m = (.ok r, m') := by
    cases target with
    | buc _ => exact ⟨site.func, by simp [Head.of], .here rfl, by simpa [lower, Head.of] using h⟩
    | dot _ => exact ⟨site.func, by simp [Head.of], .here rfl, by simpa [lower, Head.of] using h⟩
    | face name _ =>
        simp only [lower, Head.of] at h
        rw [Attempt.bind_eq_ok] at h
        obtain ⟨callee, _, hgate, h⟩ := h
        obtain ⟨bound, rfl⟩ := gate_eq_ok.1 hgate
        exact ⟨callee, by simp [Head.of], .named bound, h⟩
    | _ => simp [lower, Head.of, fail, Attempt.bind_apply] at h
  obtain ⟨callee, named, head, h⟩ := hcallee
  simp only [Attempt.bind_eq_ok, paramNames_eq_ok, emit_eq_ok] at h
  obtain ⟨_, _, hcheck, names, _, ⟨F, func, rfl, rfl⟩, as, m₁, hargs, v, app, rfl⟩ := h
  cases hc : checkPairs span pairs with
  | error e => simp [hc, Attempt.ofExcept] at hcheck
  | ok u =>
      simp only [hc, Attempt.ofExcept, Attempt.pure_apply, Prod.mk.injEq, true_and] at hcheck
      subst hcheck
      exact .centis named head hc func (lowersArgs_of_mapM_lowerNamed hs hargs) app

end Runes

lemma sound_rune {rune : Rune} {args : List Node} {span : Span} (hs : ∀ arg ∈ args, Sound arg) :
    Sound (.rune rune args span) := by
  intro σ site m m' r h
  have hrun := h
  generalize hx : lower (.rune rune args span) σ site = x at hrun
  unfold lower at hx
  split at hx <;> rename_i heq <;> cases heq
  · exact sound_dottis (hs _ (by simp)) (hs _ (by simp)) h
  · exact sound_dotlus (hs _ (by simp)) h
  · exact sound_tisfas (hs _ (by simp)) (hs _ (by simp)) h
  · exact sound_wutcol (hs _ (by simp)) (hs _ (by simp)) (hs _ (by simp)) h
  · exact sound_barhep (hs _ (by simp)) h
  · exact sound_bartis (hs _ (by simp)) h
  · exact sound_cenhep (hs _ (by simp)) (fun arg harg => hs arg (by simp [harg])) h
  · exact sound_centis (fun arg harg => hs arg (by simp [harg])) h
  · subst hx
    split at hrun <;> simp [fail] at hrun

/-- **Whenever `lower` succeeds on a tree, `Lowers` holds of it.** -/
theorem lowers_of_lower (node : Node) : Sound node := by
  induction node using Node.induction with
  | buc span =>
      intro σ site m m' r h
      simp only [lower, Attempt.pure_apply, Prod.mk.injEq, Except.ok.injEq] at h
      obtain ⟨rfl, rfl⟩ := h
      exact .buc
  | pat span | dot span | cell head tail span =>
      intro σ site m m' r h
      simp [lower, fail] at h
  | face name span =>
      intro σ site m m' r h
      cases hv : σ.get? name with
      | none => simp [lower, hv, fail] at h
      | some v =>
          simp only [lower, hv, Attempt.pure_apply, Prod.mk.injEq, Except.ok.injEq] at h
          obtain ⟨rfl, rfl⟩ := h
          exact .face hv
  | faced label value span ih =>
      intro σ site m m' r h
      rw [lower] at h
      exact .faced (ih h)
  | num digits span =>
      intro σ site m m' r h
      cases hv : numeral site.atom digits span with
      | error e => simp [lower, hv, Attempt.ofExcept, Attempt.bind_apply] at h
      | ok v =>
          simp only [lower, hv, Attempt.ofExcept, Attempt.bind_apply, Attempt.pure_apply,
            Prod.mk.injEq, Except.ok.injEq] at h
          obtain ⟨rfl, rfl⟩ := h
          exact .num hv
  | rune rune args span ih => exact sound_rune ih

/-- A module that `toModule` gives comes from lowering the body of its exported function, and passes
`verify`. -/
lemma lowersBody_of_toModule {node : Node} {atom : Ty} {entry : String} {m : Module}
    (h : node.toModule atom entry = .ok m) :
    LowersBody node .empty (entrySite atom 0) (.withEntry entry atom) m ∧ m.verify = .ok () := by
  unfold Node.toModule at h
  split at h
  · next func m' hrun =>
      obtain ⟨_, hv, hm⟩ := Runic.bind_eq_ok.1 h
      obtain rfl : m' = m := Except.ok.inj hm
      refine ⟨?_, hv⟩
      have hstart : ∀ k : FuncId → BlockId → Build FuncId,
          (do let func ← Build.addEntry entry atom
              let block ← Build.addBlock func
              k func block : Build FuncId) Module.empty = k 0 0 (.withEntry entry atom) :=
        fun _ => rfl
      rw [lowerEntry, hstart] at hrun
      simp only [Attempt.bind_eq_ok] at hrun
      obtain ⟨r, m₁, hbody, _, m₂, hfin, hend⟩ := hrun
      obtain ⟨_, rfl⟩ := Prod.mk.inj hend
      exact .mk (lowers_of_lower node hbody) hfin
  · exact absurd h (by simp)

end Lowering

/-! ## A tree that uses most of the rules -/

/-- The factorial of five: `=/(n 5 |-(?:(=(n 0) 1 (mul n $(n (dec n))))))`. -/
def factorialTree : Node :=
  let s : Span := ⟨0, 0⟩
  let n := Node.face "n" s
  let again := Node.rune .centis [.buc s, n, .rune .cenhep [.face "dec" s, n] s] s
  let product := Node.rune .cenhep [.face "mul" s, n, again] s
  let test := Node.rune .dottis [n, .num "0" s] s
  .rune .tisfas [n, .num "5" s, .rune .barhep [.rune .wutcol [test, .num "1" s, product] s] s] s

end Runic
