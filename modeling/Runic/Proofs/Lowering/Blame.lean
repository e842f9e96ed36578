import Runic.Proofs.Lowering.Failure

/-!
# Every fault has a place

If a tree is not lowered, then either the builder refused, or some node of the tree is to blame and
the error has its place.  Some faults are never met in a tree that came the whole way from a source:
a rune that has no code, a rune with too few or too many arguments, a numeral where atoms are no
integers.  Those are blamed on the very node that has no code.

* `Node.isCoded` — there is code for the node.
* `Blamed` — the error is the builder's, or a node of the tree is to blame.
* `Traced` — whenever an attempt fails, its error is of this kind.
* `traced_lower` — **lowering is traced**.
-/

namespace Runic

open Ir

/-- The function `lower` has a case with code for the node, whatever its parts are. -/
def Node.isCoded (atom : Ty) : Node → Bool
  | num _ _ => decide (atom ≠ .bool)
  | rune r args _ => r.hasCode args.length
  | _ => true

/-- The fault is that `lower` has no code for a node. -/
def LowerFault.isDefensive : LowerFault → Bool
  | arity _ _ | notCanonical _ | oddPairs | atomsNotIntegers => true
  | _ => false

namespace Lowering

/-- The error is the builder's, or it has the span of a node of `whole`; if the fault is that there
is no code for a node, then `isCoded` is false of that one. -/
def Blamed (atom : Ty) (whole : Node) (e : Error) : Prop :=
  (∃ fault, e = .ir fault) ∨ ∃ k ∈ whole.subtrees, ∃ fault, e = .lower k.span fault ∧
    (fault.isDefensive = true → k ∈ whole.expressions ∧ k.isCoded atom = false)

/-- Whenever the build fails, the error is `Blamed` on `whole`. -/
def Traced {α : Type} (atom : Ty) (whole : Node) (x : Build α) : Prop :=
  ∀ ⦃m e m'⦄, x m = (.error e, m') → Blamed atom whole e

variable {α β : Type} {atom : Ty} {whole : Node} {σ : Subject} {site : Site} {span : Span}

/-! ## Rules -/

namespace Traced

lemma pure {a : α} : Traced atom whole (pure a : Build α) := by
  intro m e m' h
  cases h

lemma fail {k : Node} {fault : LowerFault} (hk : k ∈ whole.subtrees)
    (hfault : fault.isDefensive = false) :
    Traced atom whole (fail k.span fault : Build α) := by
  intro m e m' h
  cases h
  exact .inr ⟨k, hk, fault, rfl, by simp [hfault]⟩

lemma bind {x : Build α} {f : α → Build β} (hx : Traced atom whole x)
    (hf : ∀ a, Traced atom whole (f a)) : Traced atom whole (x >>= f) := by
  intro m e m' h
  rcases Attempt.bind_eq_error.1 h with h | ⟨a, u, -, h⟩
  · exact hx h
  · exact hf a h

lemma ofExcept {r : Except Error α} (h : ∀ e, r = .error e → Blamed atom whole e) :
    Traced atom whole (Attempt.ofExcept r) := by
  intro m e m' hrun
  cases r with
  | ok a => cases hrun
  | error =>
      cases hrun
      exact h e rfl

lemma mapM {f : α → Build β} {as : List α} (h : ∀ a ∈ as, Traced atom whole (f a)) :
    Traced atom whole (as.mapM f) := by
  induction as with
  | nil => exact pure
  | cons a as ih =>
      rw [List.mapM_cons]
      refine (h a List.mem_cons_self).bind fun b => ?_
      exact (ih fun c hc => h c (List.mem_cons_of_mem _ hc)).bind fun bs => pure

/-- A change to a function is traced if all its errors are the builder's. -/
lemma onFunction {func : FuncId} {change : Attempt Function Error α}
    (h : ∀ F e F', change F = (.error e, F') → ∃ fault, e = .ir fault) :
    Traced atom whole (Build.onFunction func change) := by
  intro m e m' hrun
  unfold Build.onFunction at hrun
  split at hrun
  · cases hrun
    exact .inl ⟨_, rfl⟩
  · next F hF =>
      cases hchange : change F with
      | mk outcome F' =>
          rw [hchange] at hrun
          cases hrun
          exact .inl (h F e F' hchange)

end Traced

/-! ## The builder -/

lemma checkOpen_eq_error {F : Function} {block : BlockId} {e : Error}
    (h : F.checkOpen block = .error e) : ∃ fault, e = .ir fault := by
  unfold Function.checkOpen at h
  split at h
  · cases h
    exact ⟨_, rfl⟩
  · split at h <;> cases h
    exact ⟨_, rfl⟩

lemma append_eq_error {block : BlockId} {op : Operation} {F F' : Function} {e : Error}
    (h : Function.append block op F = (.error e, F')) : ∃ fault, e = .ir fault := by
  unfold Function.append at h
  dsimp only at h
  split at h
  · next error hopen =>
      cases h
      exact checkOpen_eq_error hopen
  · cases h

lemma terminate_eq_error {block : BlockId} {terminator : Terminator} {F F' : Function} {e : Error}
    (h : Function.terminate block terminator F = (.error e, F')) : ∃ fault, e = .ir fault := by
  unfold Function.terminate at h
  split at h
  · next error hopen =>
      cases h
      exact checkOpen_eq_error hopen
  · cases h

lemma function_eq_error {m : Module} {id : FuncId} {e : Error} (h : m.function id = .error e) :
    ∃ fault, e = .ir fault := by
  unfold Module.function at h
  split at h <;> cases h
  exact ⟨_, rfl⟩

lemma traced_append {op : Operation} :
    Traced atom whole (Build.append site.func site.block op) :=
  .onFunction fun _ _ _ h => append_eq_error h

lemma traced_terminate {terminator : Terminator} :
    Traced atom whole (Build.terminate site.func site.block terminator) :=
  .onFunction fun _ _ _ h => terminate_eq_error h

lemma traced_addBlock {func : FuncId} : Traced atom whole (Build.addBlock func) :=
  .onFunction fun _ _ _ h => nomatch h

lemma traced_addInternal {params : List Param} {ret : Ty} :
    Traced atom whole (Build.addInternal params ret) := by
  intro m e m' h
  cases h

lemma traced_paramNames {callee : FuncId} : Traced atom whole (paramNames callee) := by
  have hfunction : Traced atom whole (Build.function callee) := by
    intro m e m' h
    rcases Attempt.bind_eq_error.1 h with h | ⟨a, u, -, h⟩
    · cases h
    · exact Traced.ofExcept (fun e he => .inl (function_eq_error he)) h
  exact hfunction.bind fun F => .pure

/-! ## Operands and functions -/

section

variable {k : Node} {x : Build (Option Value)}

lemma traced_emit {op : Operation} : Traced atom whole (emit site op) :=
  traced_append.bind fun _ => .pure

lemma traced_widen {v : Value} (hk : k ∈ whole.subtrees) :
    Traced atom whole (widen site k.span v) := by
  unfold widen
  split
  · exact traced_append
  · exact .pure
  · exact .fail hk rfl

lemma traced_finish {r : Option Value} (hk : k ∈ whole.subtrees) :
    Traced atom whole (finish site k.span r) := by
  cases r with
  | none => exact .pure
  | some v => exact (traced_widen hk).bind fun _ => traced_terminate

lemma traced_operand (hk : k ∈ whole.subtrees) (hx : Traced atom whole x) :
    Traced atom whole (operand k.span x) := by
  refine hx.bind fun r => ?_
  cases r with
  | none => exact .fail hk rfl
  | some v => exact .pure

lemma traced_atomOperand (hk : k ∈ whole.subtrees) (hx : Traced atom whole x) :
    Traced atom whole (atomOperand site k.span x) :=
  (traced_operand hk hx).bind fun _ => traced_widen hk

lemma traced_subjectAtom {face : String} (hk : k ∈ whole.subtrees) :
    Traced atom whole (subjectAtom σ site k.span face) := by
  unfold subjectAtom
  split
  · exact traced_widen hk
  · exact .fail hk rfl

lemma traced_gate {face : String} (hk : k ∈ whole.subtrees) :
    Traced atom whole (gate σ k.span face) := by
  unfold gate
  split
  · exact .pure
  · exact .fail hk rfl
  · exact .fail hk rfl

lemma traced_define {captured samples : List String} {body : Subject → Site → Build (Option Value)}
    (hk : k ∈ whole.subtrees)
    (hbody : ∀ σ site, site.atom = atom → Traced atom whole (body σ site)) :
    Traced atom whole (define atom σ captured samples k.span body) := by
  refine traced_addInternal.bind fun func => traced_addBlock.bind fun block => ?_
  refine (hbody _ _ rfl).bind fun r => ?_
  exact (traced_finish hk).bind fun _ => .pure

lemma traced_callWith {callee : FuncId} {count : Nat} {args : Build (List Value)}
    (hk : k ∈ whole.subtrees) (hargs : Traced atom whole args) :
    Traced atom whole (callWith σ site k.span callee count args) := by
  refine traced_paramNames.bind fun params => ?_
  split
  · exact .fail hk rfl
  · refine (Traced.mapM fun _ _ => traced_subjectAtom hk).bind fun first => ?_
    exact hargs.bind fun last => traced_emit

end

/-! ## Trees -/

/-- The tree is an expression of `whole`, and lowering it is traced. -/
structure TracedPart (atom : Ty) (whole node : Node) : Prop where
  mem : node ∈ whole.expressions
  traced : ∀ {σ site}, site.atom = atom → Traced atom whole (lower node σ site)

lemma TracedPart.subtree {node : Node} (h : TracedPart atom whole node) : node ∈ whole.subtrees :=
  Node.mem_subtrees_of_mem_expressions h.mem

section

variable (hatom : site.atom = atom)
include hatom

lemma TracedPart.operand {node : Node} (h : TracedPart atom whole node) :
    Traced atom whole (operand node.span (lower node σ site)) :=
  traced_operand h.subtree (h.traced hatom)

lemma TracedPart.atomOperand {node : Node} (h : TracedPart atom whole node) :
    Traced atom whole (atomOperand site node.span (lower node σ site)) :=
  traced_atomOperand h.subtree (h.traced hatom)

lemma traced_lowerAtoms {nodes : List Node} (hs : ∀ n ∈ nodes, TracedPart atom whole n) :
    Traced atom whole (lowerAtoms nodes σ site) := by
  induction nodes with
  | nil =>
      rw [lowerAtoms]
      exact .pure
  | cons node nodes ih =>
      rw [List.forall_mem_cons] at hs
      rw [lowerAtoms]
      exact (hs.1.atomOperand hatom).bind fun a => (ih hs.2).bind fun as => .pure

lemma traced_lowerNamed {k : Node} {pairs : List Node} {name : String} (hk : k ∈ whole.subtrees)
    (hs : ∀ n ∈ pairs, TracedPart atom whole n) :
    Traced atom whole (lowerNamed pairs name σ site k.span) := by
  fun_induction Source.named k.span name pairs with
  | case1 labelSpan value rest =>
      rw [lowerNamed, if_pos rfl]
      exact (hs value (by simp)).atomOperand hatom
  | case2 label labelSpan value rest hne ih =>
      rw [lowerNamed, if_neg hne]
      exact ih fun n hn => hs n (by simp [hn])
  | case3 pairs hnot =>
      rw [lowerNamed]
      · exact traced_subjectAtom hk
      · exact hnot

/-! The cases of lowering, each for a rune that is an expression of the whole. -/

lemma traced_dottis {left right : Node} (hl : TracedPart atom whole left)
    (hr : TracedPart atom whole right) :
    Traced atom whole (lower (.rune .dottis [left, right] span) σ site) := by
  rw [lower]
  refine (hl.atomOperand hatom).bind fun _ => (hr.atomOperand hatom).bind fun _ => ?_
  exact traced_emit

lemma traced_tisfas {name value body : Node} (hn : name ∈ whole.subtrees)
    (hv : TracedPart atom whole value) (hb : TracedPart atom whole body) :
    Traced atom whole (lower (.rune .tisfas [name, value, body] span) σ site) := by
  cases name with
  | face face place =>
      rw [lower]
      exact (hv.operand hatom).bind fun _ => hb.traced hatom
  | _ =>
      rw [lower]
      · exact .fail hn rfl
      · simp

lemma traced_wutcol {test yes no : Node} (ht : TracedPart atom whole test)
    (hy : TracedPart atom whole yes) (hn : TracedPart atom whole no) :
    Traced atom whole (lower (.rune .wutcol [test, yes, no] span) σ site) := by
  rw [lower]
  refine (ht.operand hatom).bind fun cond => ?_
  split
  · refine traced_addBlock.bind fun _ => traced_addBlock.bind fun _ => ?_
    refine traced_terminate.bind fun _ => ?_
    refine (hy.traced (by exact hatom)).bind fun _ => (traced_finish hy.subtree).bind fun _ => ?_
    refine (hn.traced (by exact hatom)).bind fun _ => (traced_finish hn.subtree).bind fun _ => ?_
    exact .pure
  · exact .fail ht.subtree rfl

lemma traced_barhep {body : Node} (hk : .rune .barhep [body] span ∈ whole.subtrees)
    (hb : TracedPart atom whole body) :
    Traced atom whole (lower (.rune .barhep [body] span) σ site) := by
  rw [lower, hatom]
  refine (traced_define hb.subtree fun σ site h => hb.traced h).bind fun trap => ?_
  refine (Traced.mapM fun _ _ => traced_widen hk).bind fun as => ?_
  exact traced_emit

lemma traced_bartis {sample body : Node} (hs : sample ∈ whole.subtrees)
    (hb : TracedPart atom whole body) :
    Traced atom whole (lower (.rune .bartis [sample, body] span) σ site) := by
  rw [lower, hatom]
  have hsamples : Traced atom whole (Attempt.ofExcept (sampleFaces sample)) := by
    refine .ofExcept fun e he => ?_
    obtain ⟨k, hk, fault, rfl, hfault⟩ := sampleFacesFrom_eq_error he
    refine .inr ⟨k, Node.mem_subtrees_trans hk hs, fault, rfl, fun h => ?_⟩
    rcases hfault with rfl | rfl | ⟨name, rfl⟩ <;> cases h
  refine hsamples.bind fun samples => ?_
  exact (traced_define hb.subtree fun σ site h => hb.traced h).bind fun gate => .pure

lemma traced_cenhep {target : Node} {args : List Node}
    (hk : .rune .cenhep (target :: args) span ∈ whole.subtrees)
    (ht : TracedPart atom whole target) (hs : ∀ arg ∈ args, TracedPart atom whole arg) :
    Traced atom whole (lower (.rune .cenhep (target :: args) span) σ site) := by
  rw [lower]
  have hcall : ∀ callee, Traced atom whole
      (callWith σ site span callee args.length (lowerAtoms args σ site)) :=
    fun _ => traced_callWith hk (traced_lowerAtoms hatom hs)
  split
  · exact hcall _
  · split
    · split
      · exact ((hs _ (by simp)).atomOperand hatom).bind fun _ => traced_emit
      · refine ((hs _ (by simp)).atomOperand hatom).bind fun _ => ?_
        exact ((hs _ (by simp)).atomOperand hatom).bind fun _ => traced_emit
      · exact .fail hk rfl
    · exact (traced_gate ht.subtree).bind hcall
  · refine (ht.operand hatom).bind fun v => ?_
    split
    · exact hcall _
    · exact .fail ht.subtree rfl
  · exact .fail ht.subtree rfl

lemma traced_centis {target : Node} {pairs : List Node}
    (hk : .rune .centis (target :: pairs) span ∈ whole.expressions)
    (ht : TracedPart atom whole target) (hs : ∀ pair ∈ pairs, TracedPart atom whole pair) :
    Traced atom whole (lower (.rune .centis (target :: pairs) span) σ site) := by
  rw [lower]
  have hk' := Node.mem_subtrees_of_mem_expressions hk
  have hpairs : Traced atom whole (Attempt.ofExcept (checkPairs span pairs)) := by
    refine .ofExcept fun e he => ?_
    rcases checkPairs_eq_error he with ⟨hodd, rfl⟩ | ⟨k, hmem, rfl⟩
    · refine .inr ⟨_, hk', _, rfl, fun _ => ⟨hk, ?_⟩⟩
      simp only [Node.isCoded, Rune.hasCode, List.length_cons, decide_eq_false_iff_not]
      omega
    · exact .inr ⟨k, (hs k hmem).subtree, _, rfl, fun h => by cases h⟩
  have hcall : ∀ callee, Traced atom whole (do
      Attempt.ofExcept (checkPairs span pairs)
      let params ← paramNames callee
      let args ← params.mapM fun name => lowerNamed pairs name σ site span
      emit site (.call callee site.atom args) : Build (Option Value)) := by
    intro callee
    refine hpairs.bind fun _ => traced_paramNames.bind fun params => ?_
    refine (Traced.mapM fun name _ => ?_).bind fun as => traced_emit
    exact traced_lowerNamed hatom hk' hs
  split
  · exact hcall _
  · exact (traced_gate ht.subtree).bind hcall
  · exact .fail ht.subtree rfl
  · exact .fail ht.subtree rfl

lemma traced_rune {r : Rune} {args : List Node}
    (hk : .rune r args span ∈ whole.expressions)
    (hs : ∀ arg ∈ Node.operands r args, TracedPart atom whole arg) :
    Traced atom whole (lower (.rune r args span) σ site) := by
  have hk' := Node.mem_subtrees_of_mem_expressions hk
  cases r, args using lowering with
  | dottis left right =>
      exact traced_dottis hatom (hs _ (by simp [Node.operands])) (hs _ (by simp [Node.operands]))
  | dotlus value =>
      rw [lower]
      exact ((hs value (by simp [Node.operands])).atomOperand hatom).bind fun _ => traced_emit
  | tisfas name value body =>
      refine traced_tisfas hatom ?_ (hs value (by simp [Node.operands]))
        (hs body (by simp [Node.operands]))
      exact Node.mem_subtrees_trans (Node.mem_subtrees_of_mem_args (by simp)) hk'
  | wutcol test yes no =>
      exact traced_wutcol hatom (hs _ (by simp [Node.operands])) (hs _ (by simp [Node.operands]))
        (hs _ (by simp [Node.operands]))
  | barhep body => exact traced_barhep hatom hk' (hs _ (by simp [Node.operands]))
  | bartis sample body =>
      exact traced_bartis hatom (hs _ (by simp [Node.operands])).subtree
        (hs _ (by simp [Node.operands]))
  | cenhep target args =>
      exact traced_cenhep hatom hk' (hs _ (by simp [Node.operands]))
        fun arg harg => hs arg (by simp [Node.operands, harg])
  | centis target pairs =>
      exact traced_centis hatom hk (hs _ (by simp [Node.operands]))
        fun arg harg => hs arg (by simp [Node.operands, harg])
  | uncoded r args hcode hfail =>
      rw [hfail]
      intro m e m' h
      cases h
      exact .inr ⟨_, hk', _, rfl, fun _ => ⟨hk, hcode⟩⟩

end

/-- **Lowering an expression of a tree is traced**: an error is the builder's or has the span of a
node of the tree. -/
theorem traced_lower (hatom : site.atom = atom) {node : Node} (h : node ∈ whole.expressions) :
    Traced atom whole (lower node σ site) := by
  induction node using Node.induction generalizing σ site with
  | buc span =>
      rw [lower]
      exact .pure
  | pat span | dot span | cell head tail span =>
      rw [lower]
      exact .fail (Node.mem_subtrees_of_mem_expressions h) rfl
  | face name span =>
      rw [lower]
      split
      · exact .pure
      · exact .fail (Node.mem_subtrees_of_mem_expressions h) rfl
  | faced label value span ih =>
      rw [lower]
      refine ih hatom (Node.mem_expressions_trans ?_ h)
      rw [Node.expressions]
      exact List.mem_cons_of_mem _ value.mem_expressions
  | num digits span =>
      rw [lower, hatom]
      have hnumeral : Traced atom whole (Attempt.ofExcept (numeral atom digits span)) := by
        refine .ofExcept fun e he => ?_
        obtain ⟨fault, rfl, hfault⟩ := numeral_eq_error he
        refine .inr ⟨_, Node.mem_subtrees_of_mem_expressions h, fault, rfl, fun hd => ⟨h, ?_⟩⟩
        rcases hfault with ⟨rfl, -⟩ | ⟨bits, rfl⟩
        · rfl
        · cases hd
      exact hnumeral.bind fun _ => .pure
  | rune r args span ih =>
      refine traced_rune hatom h fun arg harg => ?_
      have hmem := Node.mem_expressions_of_mem_operands harg h
      exact ⟨hmem, fun hatom => ih arg (Node.mem_of_mem_operands harg) hatom hmem⟩

/-- If `toModule` fails, then `lowerEntry` does with the same error, or the error is the
builder's. -/
lemma toModule_eq_error {node : Node} {entry : String} {e : Error}
    (h : node.toModule atom entry = .error e) :
    (∃ fault, e = .ir fault) ∨ ∃ m, lowerEntry atom entry node .empty = (.error e, m) := by
  unfold Node.toModule at h
  split at h
  · next func m hrun =>
      have hverify : m.verify = .error e := bind_pure_eq_error.1 h
      unfold Module.verify at hverify
      split at hverify <;> cases hverify
      exact .inl ⟨_, rfl⟩
  · next e' m hrun =>
      cases h
      exact .inr ⟨m, hrun⟩

/-- **If `toModule` fails on a tree, the error is `Blamed` on it.** -/
theorem blamed_of_toModule {node : Node} {entry : String} {e : Error}
    (h : node.toModule atom entry = .error e) : Blamed atom node e := by
  have hentry : Traced atom node (lowerEntry atom entry node) := by
    have haddEntry : Traced atom node (Build.addEntry entry atom) := fun _ _ _ h => nomatch h
    refine haddEntry.bind fun func => traced_addBlock.bind fun block => ?_
    refine (traced_lower rfl node.mem_expressions).bind fun r => ?_
    exact (traced_finish node.mem_subtrees).bind fun _ => .pure
  rcases toModule_eq_error h with hir | ⟨m, hrun⟩
  · exact .inl hir
  · exact hentry hrun

end Lowering

end Runic
