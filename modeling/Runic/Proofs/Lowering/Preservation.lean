import Runic.Proofs.Lowering.Simulation

/-!
# Lowering preserves the meaning

Every rule of lowering makes code that realizes the evaluation of its tree (`Lowers.realized`),
given that calls do what the gates return.  By induction on the depth of calls the code of every
gate does what the gate returns (`calls_invoke`), and so does the whole module
(`toModule_returns_iff`).
-/

namespace Runic

open Ir Machine

variable {bits : Nat}

namespace Lowering

/-- The atom of the datum `d` has been returned to the caller. -/
def Returned (callers : List (Frame bits × InstId)) (d : Datum bits) (s : State bits) : Prop :=
  ∃ word, d.word = .ok word ∧ s = resume word callers

/-- How the code of a tree ends: at the site, with a value that denotes the datum of the tree; or,
if the block was closed, with its atom returned to the caller. -/
def Outcome (M : Module) (site : Site) (frame : Frame bits) (m : Module)
    (callers : List (Frame bits × InstId)) (r : Option Value) (d : Datum bits)
    (s : State bits) : Prop :=
  match r with
  | some v => Reached site frame m callers (fun fr => Denotes M fr v d) s
  | none => Returned callers d s

section Rules

variable {M m m' m₁ : Module} {gate : Gate} {σ : Subject} {ρ : Scope bits} {site : Site}
  {frame frame' : Frame bits} {callers : List (Frame bits × InstId)} {v : Value} {n : Nat}
  {r : Option Value} {d : Datum bits} {s : State bits}
  {call : Gate → List (BitVec bits) → Except Halt (BitVec bits)}

lemma Outcome.later (hl : Later frame frame') (h : Outcome M site frame' m callers r d s) :
    Outcome M site frame m callers r d s := by
  cases r with
  | none => exact h
  | some v => exact Reached.later hl h fun _ _ hd => hd

/-- At the beginning of an arm, `Stands` holds as it did before the branch. -/
lemma Stands.arm {block : BlockId} (h : Stands M gate σ ρ site frame m) (hl : Later frame frame')
    (ha : At (frame'.jump block) m' { site with block := block }) :
    Stands M gate σ ρ { site with block := block } (frame'.jump block) m' :=
  ⟨h.atom, ha, h.codes, (h.scope.later hl).later ⟨rfl, fun hr => hr⟩⟩

/-- Building another function leaves the machine at its site. -/
lemma At.define {body : Node} {atom : Ty} {params : List Param} (h : At frame m site)
    (lowered : LowersBody body σ (entrySite atom m.functions.length)
      (m.withInternal params atom) m₁) : At frame m₁ site := by
  obtain ⟨F, _, hF, _⟩ := h.place
  have hlt : site.func < m.functions.length := (List.getElem?_eq_some_iff.1 hF).1
  exact (h.elsewhere (Module.growsAt_withInternal m m.functions.length 0 params atom)
    (.inl (Nat.ne_of_gt hlt))).elsewhere lowered.growsAt (.inl (Nat.ne_of_gt hlt))

/-- The parameters of a function are those of the gate whose code it is. -/
lemma Codes.params_eq {id : FuncId} {F : Function} (h : Codes bits M id gate)
    (hF : m.functions[id]? = some F) (hg : m.Grows M) : F.params.map Param.name = gate.params := by
  obtain ⟨F', hF', hparams⟩ := h.function
  obtain ⟨G, hG, hgF⟩ := hg _ _ hF
  rw [hF', Option.some.injEq] at hG
  subst hG
  rw [← hgF.params, hparams]
  simp [atomParams, Function.comp_def]

lemma ty?_of_append {func : FuncId} {block : BlockId} {op : Operation}
    (app : Build.append func block op m = (.ok v, m')) : v.ty? = some op.ty := by
  obtain ⟨_, _, _, _, _, rfl, _⟩ := Build.append_eq_ok.1 app
  rfl

/-- An operation on arguments is realized if the arguments are, and if the machine computes what the
evaluation makes of their words. -/
lemma realizes_operation {sources : List Source} {as : List Value} {op : Operation}
    {g : List (BitVec bits) → Except Halt (Datum bits)}
    (args : Realizes M (n + 1) (.running frame callers) (sources.mapM (evalSource call gate ρ))
      fun words => Reached site frame m callers (HasWords as words))
    (app : Build.append site.func site.block op m = (.ok v, m')) (hg : m'.Grows M)
    (hop : ∀ {fr words}, HasWords as words fr → ∃ d scalar, g words = .ok d ∧
      fr.compute op = some scalar ∧ ∀ {fr'}, fr'.operand v = some scalar → Denotes M fr' v d) :
    Realizes M (n + 1) (.running frame callers)
      (sources.mapM (evalSource call gate ρ) >>= g) (Outcome M site frame m' callers (some v)) := by
  refine args.bind ?_
  rintro words _ ⟨frame₁, rfl, hl, ha, hwords⟩
  obtain ⟨d, scalar, hd, hc, hden⟩ := hop hwords
  rw [hd]
  exact Realizes.stepped (.ok ((ha.computed app hg hc).later hl fun fr _ ho => hden ho))

/-- A call is realized if its arguments are and its callee is the code of a gate. -/
lemma realizes_call {sources : List Source} {as : List Value} {callee : FuncId} {here : Gate}
    (hcall : Calls M n call) (hatom : site.atom = .int bits) (codes : Codes bits M callee gate)
    (hlen : as.length = gate.params.length)
    (args : Realizes M (n + 1) (.running frame callers) (sources.mapM (evalSource call here ρ))
      fun words => Reached site frame m callers (HasWords as words))
    (app : Build.append site.func site.block (.call callee site.atom as) m = (.ok v, m'))
    (hg : m'.Grows M) :
    Realizes M (n + 1) (.running frame callers)
      (do let words ← sources.mapM (evalSource call here ρ)
          return .atom (← call gate words))
      (Outcome M site frame m' callers (some v)) := by
  refine args.bind ?_
  rintro words _ ⟨frame₁, rfl, hl, ha, hwords⟩
  have hcount : words.length = gate.params.length := hwords.length_eq.symm.trans hlen
  refine (At.called hcall ha app hg codes hwords hcount).bind ?_
  intro word s hreach
  have hty : v.ty? = some (.int bits) := by rw [ty?_of_append app, Operation.ty, hatom]
  exact .ok (hreach.later hl fun _ _ hw => .atom hty hw)

lemma face?_bind_arithmetic {target : Node}
    (unknown : ∀ name span, target = .face name span → Builtin.find? name = none) :
    target.face?.bind (arithmetic bits) = none := by
  cases target with
  | face name span => exact arithmetic_none bits (unknown name span rfl)
  | _ => rfl

end Rules

mutual

/-- **The code of a tree realizes its evaluation**: from a frame at its site, the machine ends as
`Outcome` says of the datum that `eval` gives. -/
theorem Lowers.realized {M : Module} {here : Gate} {node : Node} {σ : Subject} {ρ : Scope bits}
    {site : Site} {frame : Frame bits} {callers : List (Frame bits × InstId)} {m m' : Module}
    {r : Option Value} {n : Nat} {call : Gate → List (BitVec bits) → Except Halt (BitVec bits)}
    (hcall : Calls M n call) (hs : Stands M here σ ρ site frame m) (hg : m'.Grows M) :
    Lowers node σ site m r m' →
      Realizes M (n + 1) (.running frame callers) (eval call here node ρ)
        (Outcome M site frame m' callers r)
  | .num value => by
      obtain ⟨b, k, hatom, hk, rfl⟩ := numeral_eq_ok.1 value
      obtain rfl : b = bits := by simpa [hs.atom, eq_comm] using hatom
      simp only [eval, number?_of_numeralValue? hk]
      refine .ok (Reached.refl hs.place (.atom (by simp [Value.ty?, hs.atom]) ?_))
      exact word_eq_some.2 (by simp [Frame.operand, hs.atom])
  | .face bound => by
      obtain ⟨d, hd, hden⟩ := hs.scope.get bound
      simp only [eval, Scope.get, hd]
      exact .ok (Reached.refl hs.place hden)
  | .buc => by
      simp only [eval]
      exact .ok (Reached.refl hs.place (.gate hs.codes))
  | .faced body => by
      simp only [eval]
      exact body.realized hcall hs hg
  | .dottis args app => by
      rw [eval_dottis]
      refine realizes_operation (args.realized hcall hs ((growsAt_of_append app).grows.trans hg))
        app hg ?_
      rintro fr _ (_ | ⟨ha, _ | ⟨hb, ⟨⟩⟩⟩)
      refine ⟨_, .flag _, rfl, Frame.compute_icmpEq hs.atom ha hb, ?_⟩
      exact fun ho => .truth (ty?_of_append app) (flag_eq_some.2 ho)
  | .dotlus args app => by
      rw [eval_dotlus]
      refine realizes_operation (args.realized hcall hs ((growsAt_of_append app).grows.trans hg))
        app hg ?_
      rintro fr _ (_ | ⟨ha, ⟨⟩⟩)
      have hone : fr.word (.const site.atom 1) = some 1 := by simp [Frame.word_const hs.atom]
      refine ⟨_, _, rfl, Frame.compute_binary hs.atom ha hone, fun ho => ?_⟩
      exact .atom ((ty?_of_append app).trans (congrArg some hs.atom)) (word_eq_some.2 ho)
  | .unary known implicit args app => by
      obtain ⟨f, hf, hcompute⟩ := arithmetic_unary bits known implicit
      rw [eval_arithmetic call here ρ hf]
      refine realizes_operation (args.realized hcall hs ((growsAt_of_append app).grows.trans hg))
        app hg ?_
      rintro fr _ (_ | ⟨ha, ⟨⟩⟩)
      refine ⟨_, _, by rw [hcompute], Frame.compute_binary hs.atom ha (Frame.word_const hs.atom _),
        fun ho => ?_⟩
      exact .atom ((ty?_of_append app).trans (congrArg some hs.atom)) (word_eq_some.2 ho)
  | .binary known explicit args app => by
      obtain ⟨f, hf, hcompute⟩ := arithmetic_binary bits known explicit
      rw [eval_arithmetic call here ρ hf]
      refine realizes_operation (args.realized hcall hs ((growsAt_of_append app).grows.trans hg))
        app hg ?_
      rintro fr _ (_ | ⟨ha, _ | ⟨hb, ⟨⟩⟩⟩)
      refine ⟨_, _, by rw [hcompute], Frame.compute_binary hs.atom ha hb, fun ho => ?_⟩
      exact .atom ((ty?_of_append app).trans (congrArg some hs.atom)) (word_eq_some.2 ho)
  | .tisfas bound rest => by
      simp only [eval]
      refine (bound.realized hcall hs (rest.growsAt.grows.trans hg)).bind ?_
      rintro d _ ⟨frame₁, rfl, hl, ha, hd⟩
      have hs₁ := hs.move hl ha
      refine (rest.realized hcall ⟨hs.atom, ha, hs.codes, hs₁.scope.bind hd _⟩ hg).imp ?_
      exact fun _ _ h => h.later hl
  | .wutcol condition bool func branch then_ else_ => by
      have hg₁ := else_.growsAt.grows.trans hg
      have hg₂ := then_.growsAt.grows.trans hg₁
      simp only [eval]
      refine (condition.realized hcall hs ((growsAt_of_branch func branch).grows.trans hg₂)).bind ?_
      rintro d _ ⟨frame₁, rfl, hl, ha, hd⟩
      obtain ⟨hstep, hat⟩ := ha.fork func branch hg₂
      cases hd with
      | atom ty _ => exact absurd (bool.symm.trans ty) (by simp)
      | gate _ => exact absurd bool (by simp [Value.ty?])
      | @truth _ flag _ held =>
          refine Realizes.stepped ?_
          rw [hstep]
          simp only [leave, held]
          cases flag with
          | true =>
              exact then_.realized hcall (hs.arm hl (hat _ (.inl rfl))) hg₁
          | false =>
              have ha' := (hat _ (.inr rfl)).elsewhere then_.growsAt (.inr (Nat.ne_of_lt (by simp)))
              exact else_.realized hcall (hs.arm hl ha') hg
  | .barhep trap args app => by
      have hg₁ := (growsAt_of_append app).grows.trans hg
      have codes := codes_of_lowersBody hs.scope (hs.atom ▸ trap) (args.growsAt.grows.trans hg₁)
      rw [eval_barhep, hs.scope.captured]
      refine realizes_call hcall hs.atom codes ?_
        (args.realized hcall ⟨hs.atom, hs.place.define trap, hs.codes, hs.scope⟩ hg₁) app hg
      rw [args.length_eq, List.length_map]
      rfl
  | .bartis mold gate => by
      have codes := codes_of_lowersBody hs.scope (hs.atom ▸ gate) hg
      simp only [eval, (sampleFaces_eq_ok.1 mold).1, hs.scope.captured]
      exact .ok (Reached.refl (hs.place.define gate) (.gate codes))
  | .cenhep unknown head func enough sources app => by
      have hg₁ := (growsAt_of_append app).grows.trans hg
      have hg₂ := sources.growsAt.grows.trans hg₁
      rw [eval_cenhep call here ρ (face?_bind_arithmetic unknown)]
      refine (head.realized hcall hs hg₂).bind ?_
      rintro gate _ ⟨frame₁, rfl, hl, ha, codes⟩
      have hparams := codes.params_eq func hg₂
      simp only [← hparams]
      rw [if_pos (by simpa using enough)]
      refine (realizes_call hcall hs.atom codes ?_ (sources.realized hcall (hs.move hl ha) hg₁)
        app hg).imp fun _ _ h => h.later hl
      rw [sources.length_eq, ← hparams]
      exact Source.length_positional (by simpa using enough)
  | .centis _ head _ func sources app => by
      have hg₁ := (growsAt_of_append app).grows.trans hg
      have hg₂ := sources.growsAt.grows.trans hg₁
      rw [eval_centis]
      refine (head.realized hcall hs hg₂).bind ?_
      rintro gate _ ⟨frame₁, rfl, hl, ha, codes⟩
      have hparams := codes.params_eq func hg₂
      simp only [← hparams]
      refine (realizes_call hcall hs.atom codes ?_ (sources.realized hcall (hs.move hl ha) hg₁)
        app hg).imp fun _ _ h => h.later hl
      rw [sources.length_eq, ← hparams, List.length_map]

theorem LowersArgs.realized {M : Module} {here : Gate} {sources : List Source} {σ : Subject}
    {ρ : Scope bits} {site : Site} {frame : Frame bits} {callers : List (Frame bits × InstId)}
    {m m' : Module} {as : List Value} {n : Nat}
    {call : Gate → List (BitVec bits) → Except Halt (BitVec bits)}
    (hcall : Calls M n call) (hs : Stands M here σ ρ site frame m) (hg : m'.Grows M) :
    LowersArgs sources σ site m as m' →
      Realizes M (n + 1) (.running frame callers) (sources.mapM (evalSource call here ρ))
        fun words => Reached site frame m' callers (HasWords as words)
  | .nil => .ok (Reached.refl hs.place .nil)
  | .tree value atom others => by
      have hg₁ := others.growsAt.grows.trans hg
      simp only [List.mapM_cons, evalSource, bind_assoc]
      refine (value.realized hcall hs ((growsAt_of_widen atom).grows.trans hg₁)).bind ?_
      rintro d _ ⟨frame₁, rfl, hl, ha, hd⟩
      refine (realizes_widen hs.atom ha hd atom hg₁).bind ?_
      rintro word _ ⟨frame₂, rfl, hl₁, ha₁, hw⟩
      refine (others.realized hcall (hs.move (hl.trans hl₁) ha₁) hg).bind ?_
      intro words s hreach
      exact .ok (hreach.later (hl.trans hl₁) fun fr hl₂ hws => .cons (hl₂.word hw) hws)
  | .face bound atom others => by
      obtain ⟨d, hlookup, hd⟩ := hs.scope.get bound
      rw [List.mapM_cons, evalSource_face call here ρ hlookup]
      refine (realizes_widen hs.atom hs.place hd atom (others.growsAt.grows.trans hg)).bind ?_
      rintro word _ ⟨frame₁, rfl, hl, ha, hw⟩
      refine (others.realized hcall (hs.move hl ha) hg).bind ?_
      intro words s hreach
      exact .ok (hreach.later hl fun fr hl₁ hws => .cons (hl₁.word hw) hws)

theorem LowersBody.realized {M : Module} {here : Gate} {node : Node} {σ : Subject} {ρ : Scope bits}
    {site : Site} {frame : Frame bits} {callers : List (Frame bits × InstId)} {m m' : Module}
    {n : Nat} {call : Gate → List (BitVec bits) → Except Halt (BitVec bits)}
    (hcall : Calls M n call) (hs : Stands M here σ ρ site frame m) (hg : m'.Grows M) :
    LowersBody node σ site m m' →
      Realizes M (n + 1) (.running frame callers) (eval call here node ρ) (Returned callers)
  | .mk body fin => by
      have hbody : Realizes M (n + 1) (.running frame callers) _ _ :=
        body.realized hcall hs ((growsAt_of_finish fin).grows.trans hg)
      rcases finish_eq_ok.1 fin with ⟨rfl, rfl⟩ | ⟨v, a, m₁, rfl, hw, ht⟩
      · exact hbody
      · refine hbody.extend ?_
        rintro d _ ⟨frame₁, rfl, hl, ha, hd⟩
        have hwide : Realizes M n (.running frame₁ callers) _ _ :=
          realizes_widen hs.atom ha hd hw ((growsAt_of_terminate ht).grows.trans hg)
        obtain ⟨word, hword, i, frame₂, hrun, _, ha₂, hw₂⟩ := exists_word hwide
        refine ⟨i + 1, word, hword, ?_⟩
        rw [run_succ, hrun, ha₂.terminate ht hg]
        simp [leave, hw₂]

theorem LowersCallee.realized {M : Module} {here : Gate} {target : Node} {σ : Subject}
    {ρ : Scope bits} {site : Site} {frame : Frame bits} {callers : List (Frame bits × InstId)}
    {m m' : Module} {callee : FuncId} {n : Nat}
    {call : Gate → List (BitVec bits) → Except Halt (BitVec bits)}
    (hcall : Calls M n call) (hs : Stands M here σ ρ site frame m) (hg : m'.Grows M) :
    LowersCallee target σ site m callee m' →
      Realizes M (n + 1) (.running frame callers) (headGate here target (eval call here target ρ))
        fun gate => Reached site frame m' callers fun _ => Codes bits M callee gate
  | .here is => by
      have hhead : headGate here target (eval call here target ρ) = .ok here := by
        cases target with
        | buc _ => rfl
        | dot _ => rfl
        | _ => simp [Head.of] at is
      rw [hhead]
      exact .ok (Reached.refl hs.place hs.codes)
  | .named bound => by
      obtain ⟨d, hlookup, hd⟩ := hs.scope.get bound
      cases hd with
      | atom ty _ | truth ty _ => simp [Value.ty?] at ty
      | gate codes =>
          simp only [eval, Scope.get, hlookup]
          exact .ok (Reached.refl hs.place codes)
  | .computed value => by
      refine (value.realized hcall hs hg).bind ?_
      rintro d _ ⟨frame₁, rfl, hl, ha, hd⟩
      cases hd with
      | atom ty _ | truth ty _ => simp [Value.ty?] at ty
      | gate codes => exact .ok ⟨frame₁, rfl, hl, ha, codes⟩

end

/-! ## Calls and modules -/

lemma lookup_mapValue {β γ : Type} (f : β → γ) (bs : List (String × β)) (face : String) :
    (bs.map fun b => (b.1, f b.2)).lookup face = (bs.lookup face).map f := by
  induction bs with
  | nil => rfl
  | cons b rest ih =>
      rw [List.map_cons, lookup_cons_if, ih]
      obtain ⟨name, v⟩ := b
      rw [lookup_cons_if]
      split <;> rfl

lemma lookup_zip {β : Type} (face : String) : ∀ {names : List String} {bs : List β},
    bs.length = names.length →
      ((names.zip bs).lookup face).isSome = names.contains face
  | [], _, _ => rfl
  | name :: names, b :: bs, hlen => by
      rw [List.zip_cons_cons, lookup_cons_if, List.contains_cons]
      have ih := lookup_zip face (by simpa using hlen : bs.length = names.length)
      by_cases hface : face = name
      · simp [hface]
      · simp [hface, ih]

/-- In the scope of a gate stand its parameters and, behind them, the gates known in it. -/
lemma lookup_scope (gate : Gate) (words : List (BitVec bits)) (face : String) :
    (gate.scope words).lookup face =
      (((gate.params.zip words).lookup face).map .atom).or
        ((gate.known.lookup face).map .gate) := by
  rw [Gate.scope, List.lookup_append, lookup_mapValue, List.zip_map_right]
  exact congrArg (Option.or · _) (lookup_mapValue Datum.atom _ face)

/-- At the beginning of the code of a gate, `Stands` holds for its body. -/
lemma Codes.stands {M : Module} {id : FuncId} {gate : Gate} {words : List (BitVec bits)}
    (h : Codes bits M id gate) (hlen : words.length = gate.params.length) :
    ∃ σ m m', LowersBody gate.body σ (entrySite (.int bits) id) m m' ∧ m'.Grows M ∧
      Stands M gate σ (gate.scope words) (entrySite (.int bits) id)
        (.enter id (atomParams (.int bits) gate.params) words) m := by
  have hcodes := h
  cases h with
  | @mk _ names known body σ _ m m' declared lowered grows params functions gates coded =>
      refine ⟨σ, m, m', lowered, grows, rfl,
        ⟨rfl, rfl, _, _, declared, rfl, rfl, fun _ _ => rfl⟩, hcodes, ?_⟩
      intro face
      have hzip : ((names.zip words).lookup face).isSome = names.contains face :=
        lookup_zip face hlen
      rw [lookup_scope]
      simp only [Gate.params, Gate.known]
      by_cases hface : face ∈ names
      · obtain ⟨word, hword⟩ := Option.isSome_iff_exists.1 (hzip.trans (by simpa using hface))
        rw [params face hface, hword]
        refine .some (.atom rfl (word_eq_some.2 ?_))
        simp [Frame.operand, Frame.enter, atomParams, Function.comp_def, hword]
      · have hnone : (names.zip words).lookup face = none := by
          refine Option.not_isSome_iff_eq_none.1 ?_
          rw [hzip]
          simpa using hface
        rw [hnone, Option.map_none, Option.none_or]
        have hsome := gates hface
        cases hv : σ.get? face with
        | none =>
            rw [hv, eq_comm, Option.isSome_none, Option.isSome_eq_false_iff] at hsome
            rw [Option.isNone_iff_eq_none.1 hsome]
            exact .none
        | some v =>
            obtain ⟨id', rfl⟩ := functions hface hv
            rw [hv, eq_comm, Option.isSome_some, Option.isSome_iff_exists] at hsome
            obtain ⟨gate, hgate⟩ := hsome
            rw [hgate]
            exact .some (.gate (coded hface hv hgate))

/-- **The code of a gate realizes its invocation**, to every depth of calls. -/
theorem calls_invoke (M : Module) : ∀ depth, @Calls bits M depth (Gate.invoke depth)
  | 0 => fun _ _ => trivial
  | depth + 1 => by
      intro codes hlen
      obtain ⟨σ, m, m', lowered, grows, hs⟩ := codes.stands hlen
      refine (lowered.realized (calls_invoke M depth) hs grows).bind ?_
      rintro d _ ⟨word, hword, rfl⟩
      rw [hword]
      exact .ok rfl

/-- The first function of the module of a tree is the code of `node.asGate`. -/
lemma codes_of_toModule {node : Node} {entry : String} {m : Module}
    (h : node.toModule (.int bits) entry = .ok m) : Codes bits m 0 node.asGate := by
  obtain ⟨body, _⟩ := lowersBody_of_toModule h
  refine .mk rfl body (.refl m) (by simp) ?_ ?_ ?_ <;> simp [Subject.get?_empty]

/-- The first function of the module of a tree is the exported one. -/
lemma start_of_toModule {node : Node} {entry : String} {m : Module}
    (h : node.toModule (.int bits) entry = .ok m) :
    (start m : State bits) = .running (.enter 0 [] []) [] := by
  obtain ⟨body, _⟩ := lowersBody_of_toModule h
  obtain ⟨F, hF, hgF⟩ := body.growsAt.grows 0 _ rfl
  have hentry : isEntry F = true := by rw [isEntry, hgF.linkage]
  have hfind : m.functions.findIdx? isEntry = some 0 := by
    cases hm : m.functions with
    | nil => simp [hm] at hF
    | cons G rest =>
        obtain rfl : G = F := by simpa [hm] using hF
        simp [List.findIdx?_cons, hentry]
  rw [start, hfind]

end Lowering

/-- **The code does what the tree means.**  The module of a tree returns a word exactly if the tree
yields it, and the machine never gets stuck. -/
theorem toModule_returns_iff {node : Node} {entry : String} {m : Module}
    (h : node.toModule (.int bits) entry = .ok m) :
    (∀ word : BitVec bits, m.Returns word ↔ node.Yields word) ∧
      ∀ steps, run m (start m : State bits) steps ≠ .stuck := by
  have hrun : ∀ depth, Realizes m depth (start m : State bits) (node.asGate.invoke depth [])
      fun word s => s = .halted word := by
    intro depth
    rw [Lowering.start_of_toModule h]
    exact Lowering.calls_invoke m depth (Lowering.codes_of_toModule h) rfl
  refine ⟨fun word => ⟨?_, ?_⟩, ?_⟩
  · rintro ⟨steps, hhalt⟩
    obtain ⟨word', hok, i, hhalt'⟩ := (hrun steps).of_not_busy (hhalt ▸ not_busy_halted word)
    have hsame := end_unique hhalt' hhalt (not_busy_halted _) (not_busy_halted _)
    rw [State.halted.injEq] at hsame
    exact ⟨steps, hsame ▸ hok⟩
  · rintro ⟨depth, hok⟩
    have hreal := hrun depth
    rwa [hok] at hreal
  · intro steps hstuck
    obtain ⟨word, _, i, hhalt⟩ := (hrun steps).of_not_busy (hstuck ▸ not_busy_stuck)
    have hsame := end_unique hhalt hstuck (not_busy_halted _) not_busy_stuck
    exact absurd hsame (by simp)

theorem toModule_returns_iff_factorial : ∃ m, factorialTree.toModule (.int 8) "main" = .ok m ∧
    m.Returns (120 : BitVec 8) ∧ ∀ steps, run m (start m : State 8) steps ≠ .stuck := by
  have hyields : factorialTree.Yields (120 : BitVec 8) := ⟨7, by decide +kernel⟩
  have hlowers : (factorialTree.toModule (.int 8) "main").isOk = true := by decide +kernel
  cases h : factorialTree.toModule (.int 8) "main" with
  | error e => simp [h, Except.isOk, Except.toBool] at hlowers
  | ok m =>
      obtain ⟨hiff, hsafe⟩ := toModule_returns_iff h
      exact ⟨m, rfl, (hiff 120).2 hyields, hsafe⟩

end Runic
