import Runic.Proofs.Attempt
import Runic.Proofs.Lowering.Cases
import Runic.Proofs.Lowering.Closing
import Runic.Proofs.Node.Parts

/-!
# Lowering fails only for what is wrong with a tree

The builder refuses to append to a block that is closed or missing and to look at a function that
does not exist.  Lowering never asks for any of that: whenever it appends, its block is open, and
whatever it calls is a function of the module.  So if it fails, then with a fault of the tree and
the place of that fault.

* `Live` — a tree can be lowered at a place: the subject is ready, and the block is open.
* `Faultless` — lowering the tree at a live place fails with nothing but a fault of the tree.
* `toModule_never_malformed` — **no tree is refused for the sake of its module**.
-/

namespace Runic

open Ir

/-- The error is one of lowering, with a span and a fault. -/
def Error.IsLower (e : Error) : Prop := ∃ span fault, e = .lower span fault

namespace Lowering

open Attempt

/-- The module is coherent, the subject offers what it binds, and the block of the site is open. -/
structure Live (m : Module) (σ : Subject) (site : Site) : Prop where
  ready : Ready m σ site
  isOpen : m.IsOpen site.func site.block

/-- At every live site, lowering the tree succeeds or fails with an error of lowering. -/
def Faultless (node : Node) : Prop :=
  ∀ {σ : Subject} {site : Site} {m : Module}, Live m σ site →
    Meets (lower node σ site) m Error.IsLower fun _ _ => True

/-! ## Faults that need no module -/

/-- If `numeral` fails, then because atoms are no integers or because the number does not fit
them. -/
lemma numeral_eq_error {atom : Ty} {digits : String} {span : Span} {e : Error}
    (h : numeral atom digits span = .error e) : ∃ fault, e = .lower span fault ∧
      ((atom = .bool ∧ fault = .atomsNotIntegers) ∨
        ∃ bits, fault = .numeralTooLarge digits bits) := by
  unfold numeral at h
  split at h
  · cases h
    exact ⟨_, rfl, .inl ⟨rfl, rfl⟩⟩
  · split at h
    · cases h
    · cases h
      exact ⟨_, rfl, .inr ⟨_, rfl⟩⟩

/-- If `sampleFacesFrom` fails on a mold, the error has the span of a part of the mold, with one of
three faults. -/
lemma sampleFacesFrom_eq_error {mold : Node} : ∀ {before : List String} {e : Error},
    sampleFacesFrom before mold = .error e → ∃ k ∈ mold.subtrees, ∃ fault, e = .lower k.span fault ∧
      (fault = .sampleType k ∨ fault = .sampleMold k ∨ ∃ name, fault = .duplicateSample name) := by
  induction mold using Node.induction with
  | buc | pat | dot | face | num | rune =>
      intro before e h
      rw [sampleFacesFrom] at h
      · cases h
        exact ⟨_, Node.mem_subtrees _, _, rfl, .inr (.inl rfl)⟩
      all_goals simp
  | faced label value span _ =>
      intro before e h
      have hvalue : value ∈ (Node.faced label value span).subtrees := by
        rw [Node.subtrees]
        exact List.mem_cons_of_mem _ (Node.mem_subtrees _)
      cases value with
      | pat place =>
          rw [sampleFacesFrom] at h
          split at h
          · cases h
            exact ⟨_, Node.mem_subtrees _, _, rfl, .inr (.inr ⟨_, rfl⟩)⟩
          · cases h
      | _ =>
          rw [sampleFacesFrom] at h
          · cases h
            exact ⟨_, hvalue, _, rfl, .inl rfl⟩
          · simp
  | cell head tail span ihHead ihTail =>
      intro before e h
      rw [sampleFacesFrom] at h
      cases hhead : sampleFacesFrom before head with
      | error e' =>
          rw [hhead] at h
          cases h
          obtain ⟨k, hk, hfault⟩ := ihHead hhead
          exact ⟨k, by simp [Node.subtrees, hk], hfault⟩
      | ok middle =>
          rw [hhead] at h
          obtain ⟨k, hk, hfault⟩ := ihTail h
          exact ⟨k, by simp [Node.subtrees, hk], hfault⟩

lemma checkNames_eq_error {pairs : List Node} {e : Error} (h : checkNames pairs = .error e) :
    ∃ k ∈ pairs, e = .lower k.span (.notFace .centis k) := by
  fun_induction checkNames pairs with
  | case1 name place value rest ih =>
      obtain ⟨k, hk, rfl⟩ := ih h
      exact ⟨k, by simp [hk], rfl⟩
  | case2 other value rest hother =>
      cases h
      exact ⟨other, by simp, rfl⟩
  | case3 => cases h

/-- If `checkPairs` fails, then because of half a pair or of a name that is no face. -/
lemma checkPairs_eq_error {span : Span} {pairs : List Node} {e : Error}
    (h : checkPairs span pairs = .error e) :
    (pairs.length % 2 ≠ 0 ∧ e = .lower span .oddPairs) ∨
      ∃ k ∈ pairs, e = .lower k.span (.notFace .centis k) := by
  unfold checkPairs at h
  split at h
  · next hodd =>
      cases h
      exact .inl ⟨hodd, rfl⟩
  · exact .inr (checkNames_eq_error h)

/-! ## Branching -/

/-- Two blocks can be opened, and an open block can be closed with a branch to them. -/
lemma terminate_fork_eq {m : Module} {func : FuncId} {block : BlockId} {F : Function} {B : Block}
    (hF : m.functions[func]? = some F) (hB : F.blocks[block]? = some B)
    (ho : B.terminator = none) (cond : Value) :
    Build.terminate func block (.condBr cond F.blocks.length (F.blocks.length + 1))
      (m.put func F.open.open) = (.ok (), m.put func (F.fork block cond)) := by
  refine Build.terminate_eq_ok.2 ⟨_, B, Module.put_function hF, ?_, ho, ?_⟩
  · exact Function.open_block (Function.open_block hB)
  · rw [Module.put_put, Function.fork]

/-- Opening two blocks and branching to them, as one step to the forked function. -/
lemma addBlock_addBlock_terminate {α : Type} {m : Module} {func : FuncId} {block : BlockId}
    {F : Function} {B : Block} (hF : m.functions[func]? = some F)
    (hB : F.blocks[block]? = some B) (ho : B.terminator = none) (cond : Value)
    (k : BlockId → BlockId → Build α) :
    (do let yes ← Build.addBlock func
        let no ← Build.addBlock func
        Build.terminate func block (.condBr cond yes no)
        k yes no : Build α) m =
      k F.blocks.length (F.blocks.length + 1) (m.put func (F.fork block cond)) := by
  have hfirst := Build.addBlock_eq_ok.2 ⟨F, hF, rfl, rfl⟩
  have hsecond : Build.addBlock func (m.put func F.open) =
      (.ok (F.blocks.length + 1), m.put func F.open.open) :=
    Build.addBlock_eq_ok.2 ⟨_, Module.put_function hF, Function.length_open.symm,
      (Module.put_put m func _ _).symm⟩
  simp only [Attempt.bind_apply, hfirst, hsecond, terminate_fork_eq hF hB ho]

section

variable {m m' : Module} {σ : Subject} {site : Site} {span : Span}

/-! ## Operands -/

lemma meets_fail {α : Type} {fault : LowerFault} {post : α → Module → Prop} :
    Meets (fail span fault : Build α) m Error.IsLower post :=
  .fail ⟨span, fault, rfl⟩

lemma meets_append {op : Operation} (ho : m.IsOpen site.func site.block) :
    Meets (Build.append site.func site.block op) m Error.IsLower fun v m' =>
      Build.append site.func site.block op m = (.ok v, m') := by
  obtain ⟨F, B, hF, hB, hopen⟩ := ho
  have happ : Build.append site.func site.block op m =
      (.ok (.inst op.ty F.nextInst), m.put site.func (F.push site.block op)) :=
    Build.append_eq_ok.2 ⟨F, B, hF, hB, hopen, rfl, rfl⟩
  exact .of_eq_ok happ happ

lemma meets_emit {op : Operation} (ho : m.IsOpen site.func site.block) :
    Meets (emit site op) m Error.IsLower fun _ _ => True :=
  (meets_append ho).bind fun _ _ _ => .pure trivial

lemma meets_widen {v : Value} (hl : Live m σ site) (hv : Has m site v) :
    Meets (widen site span v) m Error.IsLower fun _ m' => Live m' σ site := by
  have hfaultless : Meets (widen site span v) m Error.IsLower fun _ _ => True := by
    unfold widen
    split
    · exact (meets_append hl.isOpen).imp fun _ _ _ => trivial
    · exact .pure trivial
    · exact meets_fail
  refine hfaultless.of_ok fun a m' h => ⟨?_, isOpen_of_widen hl.isOpen h⟩
  exact hl.ready.grows (growsAt_of_widen h).grows (coherent_widen hl.ready.coherent hv h).1

lemma meets_subjectAtom {face : String} (hl : Live m σ site) :
    Meets (subjectAtom σ site span face) m Error.IsLower fun _ m' => Live m' σ site := by
  unfold subjectAtom
  split
  · next v hv => exact meets_widen hl (hl.ready.has hv)
  · exact meets_fail

/-- Behind a tree that leaves an operand, the site is live, and the operand is there. -/
lemma Live.lowered {node : Node} {v : Value} (hl : Live m σ site)
    (h : Lowers node σ site m (some v) m') : Live m' σ site ∧ Has m' site v := by
  obtain ⟨hc, hv⟩ := h.coherent hl.ready
  exact ⟨⟨hl.ready.grows h.growsAt.grows hc, (h.ending hl.isOpen).1⟩, hv v rfl⟩

lemma meets_lower {node : Node} (hn : Faultless node) (hl : Live m σ site) :
    Meets (lower node σ site) m Error.IsLower fun r m' => Lowers node σ site m r m' :=
  (hn hl).of_ok fun _ _ => lowers_of_lower node

lemma meets_operand {node : Node} (hn : Faultless node) (hl : Live m σ site) :
    Meets (operand span (lower node σ site)) m Error.IsLower fun v m' =>
      Live m' σ site ∧ Has m' site v := by
  refine (meets_lower hn hl).bind fun r m' h => ?_
  cases r with
  | none => exact meets_fail
  | some v => exact .pure (hl.lowered h)

lemma meets_atomOperand {node : Node} (hn : Faultless node) (hl : Live m σ site) :
    Meets (atomOperand site span (lower node σ site)) m Error.IsLower fun _ m' =>
      Live m' σ site :=
  (meets_operand hn hl).bind fun _ _ h => meets_widen h.1 h.2

/-! ## Functions -/

lemma meets_paramNames {callee : FuncId} (h : callee < m.functions.length) :
    Meets (paramNames callee) m Error.IsLower fun _ m' => m' = m :=
  .of_eq_ok (paramNames_eq_ok.2 ⟨_, List.getElem?_eq_getElem h, rfl, rfl⟩) rfl

lemma meets_gate {face : String} (hr : Ready m σ site) :
    Meets (gate σ span face) m Error.IsLower fun id m' =>
      m' = m ∧ id < m.functions.length := by
  unfold gate
  split
  · next id hv => exact .pure ⟨rfl, (hr.has hv).func_lt⟩
  · exact meets_fail
  · exact meets_fail

/-- Behind a tree that was lowered at a live site, `finish` succeeds or fails with an error of
lowering. -/
lemma meets_finish {node : Node} {r : Option Value} (hl : Live m σ site)
    (h : Lowers node σ site m r m') :
    Meets (finish site node.span r) m' Error.IsLower fun _ m'' =>
      LowersBody node σ site m m'' := by
  have hfaultless : Meets (finish site node.span r) m' Error.IsLower fun _ _ => True := by
    cases r with
    | none => exact .pure trivial
    | some v =>
        obtain ⟨hl', hv⟩ := hl.lowered h
        refine (meets_widen hl' hv).bind fun a m'' hl'' => ?_
        obtain ⟨F, B, hF, hB, hopen⟩ := hl''.isOpen
        exact .of_eq_ok (Build.terminate_eq_ok.2 ⟨F, B, hF, hB, hopen, rfl⟩) trivial
  exact hfaultless.of_ok fun _ _ hfin => .mk h hfin

/-- The first block of a new function is live, and once its body is lowered the site at which it is
made is live again. -/
lemma Live.inner {names samples : List String} (hl : Live m σ site) (nodup : names.Nodup) :
    Live (m.withInternal (atomParams site.atom names) site.atom)
      (innerSubject σ samples (atomParams site.atom names))
      (entrySite site.atom m.functions.length) :=
  ⟨hl.ready.inner nodup, Module.isOpen_withInternal _ _ _⟩

lemma Live.defined {names samples : List String} {body : Node} (hl : Live m σ site)
    (nodup : names.Nodup)
    (h : LowersBody body (innerSubject σ samples (atomParams site.atom names))
      (entrySite site.atom m.functions.length)
      (m.withInternal (atomParams site.atom names) site.atom) m') : Live m' σ site := by
  have hg := (Module.growsAt_withInternal m site.func site.block
    (atomParams site.atom names) site.atom).grows.trans h.growsAt.grows
  have hc := h.coherent (hl.ready.inner nodup)
  exact ⟨hl.ready.grows hg hc, isOpen_of_inner hl.isOpen h⟩

lemma meets_define {captured samples : List String} {body : Node} (hb : Faultless body)
    (hl : Live m σ site) (nodup : (captured ++ samples).Nodup) :
    Meets (define site.atom σ captured samples body.span fun σ site => lower body σ site) m
      Error.IsLower fun _ m' => Live m' σ site := by
  have hfaultless : Meets (define site.atom σ captured samples body.span
      fun σ site => lower body σ site) m Error.IsLower fun _ _ => True := by
    unfold Meets
    rw [define, Build.addInternal_addBlock]
    have hinner : Live _ (innerSubject σ samples _) _ := hl.inner nodup
    refine (meets_lower hb hinner).bind fun r m' h => ?_
    exact (meets_finish hinner h).bind fun _ _ _ => .pure trivial
  refine hfaultless.of_ok fun func m' h => ?_
  exact hl.defined nodup (lowersBody_of_define (lowers_of_lower body) h).2

lemma meets_lowerAtoms {nodes : List Node} (hs : ∀ node ∈ nodes, Faultless node) :
    ∀ {m : Module}, Live m σ site →
      Meets (lowerAtoms nodes σ site) m Error.IsLower fun _ m' => Live m' σ site := by
  induction nodes with
  | nil =>
      intro m hl
      rw [lowerAtoms]
      exact .pure hl
  | cons node nodes ih =>
      intro m hl
      rw [lowerAtoms]
      refine (meets_atomOperand (hs node List.mem_cons_self) hl).bind fun a m' hl' => ?_
      refine (ih (fun n hn => hs n (List.mem_cons_of_mem _ hn)) hl').bind fun as m'' hl'' => ?_
      exact .pure hl''

lemma meets_lowerNamed {pairs : List Node} {name : String}
    (hs : ∀ node ∈ pairs, Faultless node) (hl : Live m σ site) :
    Meets (lowerNamed pairs name σ site span) m Error.IsLower fun _ m' => Live m' σ site := by
  fun_induction Source.named span name pairs with
  | case1 labelSpan value rest =>
      rw [lowerNamed, if_pos rfl]
      exact meets_atomOperand (hs value (by simp)) hl
  | case2 label labelSpan value rest hne ih =>
      rw [lowerNamed, if_neg hne]
      exact ih fun n hn => hs n (by simp [hn])
  | case3 pairs hnot =>
      rw [lowerNamed]
      · exact meets_subjectAtom hl
      · exact hnot

/-- At a live site a call by position of a function of the module succeeds or fails with an error of
lowering. -/
lemma meets_callWith {callee : FuncId} {args : List Node} (hs : ∀ node ∈ args, Faultless node)
    (hl : Live m σ site) (hc : callee < m.functions.length) :
    Meets (callWith σ site span callee args.length (lowerAtoms args σ site)) m Error.IsLower
      fun _ _ => True := by
  refine (meets_paramNames hc).bind ?_
  rintro params _ rfl
  split
  · exact meets_fail
  · refine (Meets.mapM (fun _ _ _ hl => meets_subjectAtom hl) hl).bind fun _ m' hl' => ?_
    refine (meets_lowerAtoms hs hl').bind fun _ m'' hl'' => ?_
    exact meets_emit hl''.isOpen

end

/-! ## Trees -/

section

variable {span : Span}

lemma faultless_dottis {left right : Node} (hl : Faultless left) (hr : Faultless right) :
    Faultless (.rune .dottis [left, right] span) := by
  intro σ site m h
  rw [lower]
  refine (meets_atomOperand hl h).bind fun _ m₁ h₁ => ?_
  refine (meets_atomOperand hr h₁).bind fun _ m₂ h₂ => ?_
  exact meets_emit h₂.isOpen

lemma faultless_dotlus {node : Node} (hn : Faultless node) :
    Faultless (.rune .dotlus [node] span) := by
  intro σ site m h
  rw [lower]
  refine (meets_atomOperand hn h).bind fun _ m₁ h₁ => ?_
  exact meets_emit h₁.isOpen

lemma faultless_tisfas {name value body : Node} (hv : Faultless value) (hb : Faultless body) :
    Faultless (.rune .tisfas [name, value, body] span) := by
  intro σ site m h
  cases name with
  | face face place =>
      rw [lower]
      refine (meets_operand hv h).bind fun v m₁ h₁ => ?_
      exact hb ⟨h₁.1.ready.bind h₁.2, h₁.1.isOpen⟩
  | _ =>
      rw [lower]
      · exact meets_fail
      · simp

/-- A conditional is faultless if its parts are: its two arms are lowered at live sites one after
the other. -/
lemma faultless_wutcol {test yes no : Node} (ht : Faultless test) (hy : Faultless yes)
    (hn : Faultless no) : Faultless (.rune .wutcol [test, yes, no] span) := by
  intro σ site m h
  rw [lower]
  refine (meets_operand ht h).bind ?_
  rintro cond m₁ ⟨hl, hcond⟩
  split
  · next bool =>
      obtain ⟨F, B, hF, hB, hopen⟩ := hl.isOpen
      have hbranch := terminate_fork_eq hF hB hopen cond
      have harm : ∀ {b}, b = F.blocks.length ∨ b = F.blocks.length + 1 →
          Live (m₁.put site.func (F.fork site.block cond)) σ { site with block := b } :=
        fun hb => ⟨hl.ready.arms hF (hcond.truth bool) hbranch hb,
          isOpen_of_branch hl.isOpen hF hbranch hb⟩
      unfold Meets
      rw [addBlock_addBlock_terminate hF hB hopen]
      have hyes := harm (.inl rfl)
      refine (meets_lower hy hyes).bind fun r m₂ h₂ => ?_
      refine (meets_finish hyes h₂).bind fun _ m₃ then_ => ?_
      have hc := then_.coherent hyes.ready
      have hno : Live m₃ σ { site with block := F.blocks.length + 1 } :=
        ⟨(harm (.inr rfl)).ready.grows then_.growsAt.grows hc,
          (harm (.inr rfl)).isOpen.elsewhere then_.growsAt fun _ => Nat.succ_ne_self _⟩
      refine (meets_lower hn hno).bind fun r m₄ h₄ => ?_
      exact (meets_finish hno h₄).bind fun _ _ _ => .pure trivial
  · exact meets_fail

lemma faultless_barhep {body : Node} (hb : Faultless body) :
    Faultless (.rune .barhep [body] span) := by
  intro σ site m h
  rw [lower]
  refine (meets_define hb h (by simpa using capturedFaces_nodup σ [])).bind fun trap m₁ h₁ => ?_
  have hwiden : Meets ((capturedFaces σ []).mapM fun face => widen site span face.2) m₁
      Error.IsLower fun _ m₂ => Live m₂ σ site := by
    refine Meets.mapM ?_ h₁
    rintro ⟨face, v⟩ hmem m hl
    exact meets_widen hl (hl.ready.has (mem_capturedFaces.1 hmem).1)
  exact hwiden.bind fun as m₂ h₂ => meets_emit h₂.isOpen

lemma faultless_bartis {sample body : Node} (hb : Faultless body) :
    Faultless (.rune .bartis [sample, body] span) := by
  intro σ site m h
  rw [lower]
  have hsamples : Meets (Attempt.ofExcept (sampleFaces sample)) m Error.IsLower
      fun samples m' => sampleFaces sample = .ok samples ∧ m' = m := by
    refine .ofExcept (fun samples hs => ⟨hs, rfl⟩) fun e he => ?_
    obtain ⟨k, -, fault, rfl, -⟩ := sampleFacesFrom_eq_error he
    exact ⟨_, _, rfl⟩
  refine hsamples.bind ?_
  rintro samples m' ⟨hs, rfl⟩
  refine (meets_define hb h (params_nodup hs)).bind fun gate m₁ _ => ?_
  exact .pure trivial

lemma faultless_cenhep {target : Node} {args : List Node} (ht : Faultless target)
    (hs : ∀ arg ∈ args, Faultless arg) : Faultless (.rune .cenhep (target :: args) span) := by
  intro σ site m h
  rw [lower]
  split
  · exact meets_callWith hs h h.isOpen.func_lt
  · next name hname =>
      split
      · next builtin hbuiltin =>
          split
          · refine (meets_atomOperand (hs _ (by simp)) h).bind fun _ m₁ h₁ => ?_
            exact meets_emit h₁.isOpen
          · refine (meets_atomOperand (hs _ (by simp)) h).bind fun _ m₁ h₁ => ?_
            refine (meets_atomOperand (hs _ (by simp)) h₁).bind fun _ m₂ h₂ => ?_
            exact meets_emit h₂.isOpen
          · exact meets_fail
      · refine (meets_gate h.ready).bind ?_
        rintro callee _ ⟨rfl, hcallee⟩
        exact meets_callWith hs h hcallee
  · refine (meets_operand ht h).bind ?_
    rintro v m₁ ⟨h₁, hv⟩
    split
    · next callee => exact meets_callWith hs h₁ hv.func_lt
    · exact meets_fail
  · exact meets_fail

/-- At a live site a call by names of a function of the module succeeds or fails with an error of
lowering. -/
lemma meets_callNamed {σ : Subject} {site : Site} {m : Module} {callee : FuncId}
    {pairs : List Node} (hs : ∀ pair ∈ pairs, Faultless pair) (h : Live m σ site)
    (hlt : callee < m.functions.length) :
    Meets (do Attempt.ofExcept (checkPairs span pairs)
              let params ← paramNames callee
              let args ← params.mapM fun name => lowerNamed pairs name σ site span
              emit site (.call callee site.atom args) : Build (Option Value)) m Error.IsLower
      fun _ _ => True := by
  have hpairs : Meets (Attempt.ofExcept (checkPairs span pairs)) m Error.IsLower
      fun _ m' => m' = m := by
    refine .ofExcept (fun _ _ => rfl) fun e he => ?_
    rcases checkPairs_eq_error he with ⟨-, rfl⟩ | ⟨k, -, rfl⟩ <;> exact ⟨_, _, rfl⟩
  refine hpairs.bind ?_
  rintro _ _ rfl
  refine (meets_paramNames hlt).bind ?_
  rintro params _ rfl
  refine (Meets.mapM (fun _ _ _ hl => meets_lowerNamed hs hl) h).bind fun as m₁ h₁ => ?_
  exact meets_emit h₁.isOpen

lemma faultless_centis {target : Node} {pairs : List Node} (hs : ∀ pair ∈ pairs, Faultless pair) :
    Faultless (.rune .centis (target :: pairs) span) := by
  intro σ site m h
  rw [lower]
  split
  · exact meets_callNamed hs h h.isOpen.func_lt
  · refine (meets_gate h.ready).bind ?_
    rintro callee _ ⟨rfl, hlt⟩
    exact meets_callNamed hs h hlt
  · exact meets_fail
  · exact meets_fail

end

lemma faultless_rune {r : Rune} {args : List Node} {span : Span}
    (hs : ∀ arg ∈ args, Faultless arg) : Faultless (.rune r args span) := by
  cases r, args using lowering with
  | dottis left right => exact faultless_dottis (hs _ (by simp)) (hs _ (by simp))
  | dotlus value => exact faultless_dotlus (hs _ (by simp))
  | tisfas name value body => exact faultless_tisfas (hs _ (by simp)) (hs _ (by simp))
  | wutcol test yes no =>
      exact faultless_wutcol (hs _ (by simp)) (hs _ (by simp)) (hs _ (by simp))
  | barhep body => exact faultless_barhep (hs _ (by simp))
  | bartis sample body => exact faultless_bartis (hs _ (by simp))
  | cenhep target args =>
      exact faultless_cenhep (hs _ (by simp)) fun arg harg => hs arg (by simp [harg])
  | centis target pairs => exact faultless_centis fun pair hpair => hs pair (by simp [hpair])
  | uncoded r args _ hfail =>
      intro σ site m _
      rw [hfail]
      exact meets_fail

/-- **At a live site, `lower` fails only with an error of lowering**, never with one of the
builder. -/
theorem faultless (node : Node) : Faultless node := by
  induction node using Node.induction with
  | buc span =>
      intro σ site m h
      rw [lower]
      exact .pure trivial
  | pat span | dot span | cell head tail span =>
      intro σ site m h
      rw [lower]
      exact meets_fail
  | face name span =>
      intro σ site m h
      rw [lower]
      split
      · exact .pure trivial
      · exact meets_fail
  | faced label value span ih =>
      intro σ site m h
      rw [lower]
      exact ih h
  | num digits span =>
      intro σ site m h
      rw [lower]
      have hnumeral : Meets (Attempt.ofExcept (numeral site.atom digits span)) m Error.IsLower
          fun _ _ => True := by
        refine .ofExcept (fun _ _ => trivial) fun e he => ?_
        obtain ⟨fault, rfl, -⟩ := numeral_eq_error he
        exact ⟨_, _, rfl⟩
      exact hnumeral.bind fun _ _ _ => .pure trivial
  | rune r args span ih => exact faultless_rune ih

/-- Lowering an exported function fails only with an error of lowering, and otherwise gives a module
that passes `verify`. -/
lemma meets_lowerEntry (node : Node) (atom : Ty) (entry : String) :
    Meets (lowerEntry atom entry node) .empty Error.IsLower fun _ m => m.verify = .ok () := by
  have hstart : ∀ k : FuncId → BlockId → Build FuncId,
      (do let func ← Build.addEntry entry atom
          let block ← Build.addBlock func
          k func block : Build FuncId) Module.empty = k 0 0 (.withEntry entry atom) :=
    fun _ => rfl
  have hlive : Live (.withEntry entry atom) .empty (entrySite atom 0) :=
    ⟨.entry atom entry, ⟨_, .empty, rfl, rfl, rfl⟩⟩
  unfold Meets
  rw [lowerEntry, hstart]
  refine (meets_lower (faultless node) hlive).bind fun r m h => ?_
  refine (meets_finish hlive h).bind fun _ m' body => ?_
  exact .pure body.verify

end Lowering

/-! ## Modules -/

/-- **No tree is refused for the sake of its module.**  If a tree has no module, then for a fault of
the tree; if its function is lowered, the module passes verification and has a text.  And whatever
the module, the subject and the open block in which a tree is lowered, the block is closed if and
only if no operand is left, and if and only if the tree ends in a conditional. -/
theorem toModule_never_malformed (node : Node) :
    (∀ bits entry,
      (∀ e, node.toModule (.int bits) entry = .error e → ∃ span fault, e = .lower span fault) ∧
        ∀ func m, Lowering.lowerEntry (.int bits) entry node .empty = (.ok func, m) →
          m.verify = .ok () ∧ ∃ text, m.render = .ok text) ∧
    ∀ σ site m r m', m.IsOpen site.func site.block →
      Lowering.lower node σ site m = (.ok r, m') →
        (r = none ↔ m'.IsClosed site.func site.block) ∧ (r = none ↔ node.isBranch = true) := by
  constructor
  · intro bits entry
    have hmeets := Lowering.meets_lowerEntry node (.int bits) entry
    have hverify : ∀ func m, Lowering.lowerEntry (.int bits) entry node .empty = (.ok func, m) →
        m.verify = .ok () := by
      intro func m hrun
      unfold Attempt.Meets at hmeets
      rwa [hrun] at hmeets
    constructor
    · intro e h
      unfold Node.toModule at h
      split at h
      · next func m hrun =>
          rw [hverify func m hrun] at h
          cases h
      · next e' m hrun =>
          cases h
          exact hmeets.error hrun
    · intro func m hrun
      have hrender : m.render = .ok ("\n".intercalate (m.functions.map (·.text m))) := by
        rw [Module.render, hverify func m hrun]
        rfl
      exact ⟨hverify func m hrun, _, hrender⟩
  · intro σ site m r m' ho h
    have hending := (Lowering.lowers_of_lower node h).ending ho
    cases r with
    | none => simp [hending.1, hending.2]
    | some v => simp [hending.1.not_isClosed, hending.2]

/-- The tree of `=/(a =(1 2) b=?:(a |-(3) .+(4)))`. -/
def branchTree : Node :=
  let s : Span := ⟨0, 0⟩
  let test := Node.rune .dottis [.num "1" s, .num "2" s] s
  let arms := Node.rune .wutcol
    [.face "a" s, .rune .barhep [.num "3" s] s, .rune .dotlus [.num "4" s] s] s
  .rune .tisfas [.face "a" s, test, .faced "b" arms s] s

theorem toModule_never_malformed_branch :
    (∃ func m, Lowering.lowerEntry (.int 8) "main" branchTree .empty = (.ok func, m) ∧
        m.verify = .ok ()) ∧
      (∃ e, (Node.rune .dotlus [branchTree] ⟨0, 0⟩).toModule (.int 8) "main" = .error e ∧
        ∃ span fault, e = .lower span fault) ∧
      ∃ m', Lowering.lower branchTree .empty ⟨.int 8, 0, 0⟩ (.withEntry "main" (.int 8)) =
        (.ok none, m') ∧ m'.IsClosed 0 0 := by
  obtain ⟨hmodule, hblock⟩ := toModule_never_malformed branchTree
  refine ⟨?_, ?_, ?_⟩
  · have hrun : (Lowering.lowerEntry (.int 8) "main" branchTree .empty).1.toOption.any (· = 0) =
        true := by
      decide +kernel
    obtain ⟨func, m, hfunc, -⟩ := exists_of_any_outcome hrun
    exact ⟨func, m, hfunc, ((hmodule 8 "main").2 func m hfunc).1⟩
  · have hrun : ((Node.rune .dotlus [branchTree] ⟨0, 0⟩).toModule (.int 8) "main").toOption =
        none := by decide +kernel
    obtain ⟨e, he⟩ := exists_of_toOption_eq_none hrun
    exact ⟨e, he, ((toModule_never_malformed _).1 8 "main").1 e he⟩
  · have hrun : (Lowering.lower branchTree .empty ⟨.int 8, 0, 0⟩
        (.withEntry "main" (.int 8))).1.toOption.any (· = none) = true := by decide +kernel
    have hopen : (Module.withEntry "main" (.int 8)).IsOpen 0 0 := ⟨_, .empty, rfl, rfl, rfl⟩
    obtain ⟨r, m', hlower, hnone⟩ := exists_of_any_outcome hrun
    obtain rfl := of_decide_eq_true hnone
    exact ⟨m', hlower, (hblock _ ⟨.int 8, 0, 0⟩ _ _ _ hopen hlower).1.1 rfl⟩

end Runic
