import Runic.Proofs.Lowering.Failure
import Runic.Proofs.Node.Grammar

/-!
# Places make no difference to code

Lowering looks at the places of nodes only to say where something is wrong.

* `Echoes` — two builds do the same to every module, and both fail or none does.
* `echoes_lower` — **a tree without its places is lowered as the tree is**.
* `toModule_congr` — so trees that differ in their places alone have the same code.
-/

namespace Runic

open Ir

namespace Lowering

variable {α β : Type}

/-- From every module, two builds leave the same module and give the same result, except that they
may fail with different errors. -/
def Echoes (x y : Build α) : Prop :=
  ∀ m, (x m).1.toOption = (y m).1.toOption ∧ (x m).2 = (y m).2

namespace Echoes

lemma refl (x : Build α) : Echoes x x := fun _ => ⟨rfl, rfl⟩

lemma symm {x y : Build α} (h : Echoes x y) : Echoes y x :=
  fun m => ⟨(h m).1.symm, (h m).2.symm⟩

lemma trans {x y z : Build α} (h : Echoes x y) (h' : Echoes y z) : Echoes x z :=
  fun m => ⟨(h m).1.trans (h' m).1, (h m).2.trans (h' m).2⟩

lemma fail {span span' : Span} {fault fault' : LowerFault} :
    Echoes (Lowering.fail span fault : Build α) (Lowering.fail span' fault') :=
  fun _ => ⟨rfl, rfl⟩

lemma ofExcept {r r' : Except Error α} (h : r.toOption = r'.toOption) :
    Echoes (Attempt.ofExcept r : Build α) (Attempt.ofExcept r') := by
  cases r <;> cases r' <;> cases h <;> exact fun _ => ⟨rfl, rfl⟩

lemma bind {x y : Build α} {f g : α → Build β} (hx : Echoes x y) (hf : ∀ a, Echoes (f a) (g a)) :
    Echoes (x >>= f) (y >>= g) := by
  intro m
  obtain ⟨houtcome, hmodule⟩ := hx m
  rw [Attempt.bind_apply, Attempt.bind_apply]
  rcases hxm : x m with ⟨outcome, m₁⟩
  rcases hym : y m with ⟨outcome', m₂⟩
  rw [hxm, hym] at houtcome hmodule
  subst hmodule
  cases outcome <;> cases outcome' <;> cases houtcome
  · exact ⟨rfl, rfl⟩
  · exact hf _ m₁

lemma mapM {f g : α → Build β} (h : ∀ a, Echoes (f a) (g a)) (as : List α) :
    Echoes (as.mapM f) (as.mapM g) := by
  induction as with
  | nil => exact .refl _
  | cons a as ih =>
      rw [List.mapM_cons, List.mapM_cons]
      exact (h a).bind fun b => ih.bind fun bs => .refl _

end Echoes

/-! ## Operands and functions -/

section

variable {σ : Subject} {site : Site} {span span' : Span} {x y : Build (Option Value)}

lemma echoes_widen {v : Value} : Echoes (widen site span v) (widen site span' v) := by
  unfold widen
  split
  · exact .refl _
  · exact .refl _
  · exact .fail

lemma echoes_finish {r : Option Value} : Echoes (finish site span r) (finish site span' r) := by
  cases r with
  | none => exact .refl _
  | some v => exact echoes_widen.bind fun _ => .refl _

lemma Echoes.operand (h : Echoes x y) : Echoes (operand span x) (operand span' y) := by
  refine h.bind fun r => ?_
  cases r with
  | none => exact .fail
  | some v => exact .refl _

lemma Echoes.atomOperand (h : Echoes x y) :
    Echoes (atomOperand site span x) (atomOperand site span' y) :=
  h.operand.bind fun _ => echoes_widen

lemma echoes_subjectAtom {face : String} :
    Echoes (subjectAtom σ site span face) (subjectAtom σ site span' face) := by
  unfold subjectAtom
  split
  · exact echoes_widen
  · exact .fail

lemma echoes_gate {face : String} : Echoes (gate σ span face) (gate σ span' face) := by
  unfold gate
  split
  · exact .refl _
  · exact .fail
  · exact .fail

lemma echoes_define {atom : Ty} {captured samples : List String}
    {body body' : Subject → Site → Build (Option Value)}
    (h : ∀ σ site, Echoes (body σ site) (body' σ site)) :
    Echoes (define atom σ captured samples span body)
      (define atom σ captured samples span' body') := by
  refine (Echoes.refl _).bind fun func => (Echoes.refl _).bind fun block => ?_
  exact (h _ _).bind fun r => echoes_finish.bind fun _ => .refl _

lemma echoes_callWith {callee : FuncId} {count : Nat} {args args' : Build (List Value)}
    (h : Echoes args args') : Echoes (callWith σ site span callee count args)
      (callWith σ site span' callee count args') := by
  refine (Echoes.refl _).bind fun params => ?_
  split
  · exact .fail
  · refine (Echoes.mapM (fun _ => echoes_subjectAtom) _).bind fun first => ?_
    exact h.bind fun last => .refl _

end

/-! ## Texts, molds and names -/

lemma toOption_numeral (atom : Ty) (digits : String) (span span' : Span) :
    (numeral atom digits span).toOption = (numeral atom digits span').toOption := by
  cases atom with
  | bool => rfl
  | int bits =>
      simp only [numeral]
      split <;> rfl

/-- If `x` and `y` have the same success or none, and so have `f a` and `g a` for every `a`, then so
have the sequences. -/
lemma toOption_bind_congr {ε : Type} {x y : Except ε α} {f g : α → Except ε β}
    (h : x.toOption = y.toOption) (hf : ∀ a, (f a).toOption = (g a).toOption) :
    (x >>= f).toOption = (y >>= g).toOption := by
  cases x <;> cases y <;> cases h
  · rfl
  · exact hf _

lemma toOption_sampleFacesFrom (mold : Node) (before : List String) :
    (sampleFacesFrom before mold.bare).toOption = (sampleFacesFrom before mold).toOption := by
  induction mold using Node.induction generalizing before with
  | cell head tail span ihHead ihTail =>
      rw [Node.bare, sampleFacesFrom, sampleFacesFrom]
      exact toOption_bind_congr (ihHead before) ihTail
  | faced label value span ih =>
      cases value with
      | pat place =>
          simp only [Node.bare, sampleFacesFrom]
          split <;> rfl
      | _ => simp [sampleFacesFrom, Except.toOption]
  | _ => rfl

lemma toOption_checkNames (pairs : List Node) :
    (checkNames (Node.bareAll pairs)).toOption = (checkNames pairs).toOption := by
  fun_induction checkNames pairs with
  | case1 name span value rest ih => simpa [checkNames] using ih
  | case2 name value rest hface =>
      cases name with
      | face label place => exact absurd rfl (hface label place)
      | _ => rfl
  | case3 pairs hface hpair =>
      rcases pairs with _ | ⟨name, _ | ⟨value, rest⟩⟩
      · rfl
      · simp [checkNames]
      · exact absurd rfl (hpair name value rest)

lemma toOption_checkPairs (span span' : Span) (pairs : List Node) :
    (checkPairs span (Node.bareAll pairs)).toOption = (checkPairs span' pairs).toOption := by
  rw [checkPairs, checkPairs, Node.length_bareAll]
  split
  · rfl
  · exact toOption_checkNames pairs

lemma Head.of_bare (n : Node) : Head.of n.bare = Head.of n := by
  cases n <;> rfl

/-! ## Trees -/

/-- Lowering `node.bare` echoes lowering `node`, under every subject and at every site. -/
def Placeless (node : Node) : Prop :=
  ∀ (σ : Subject) (site : Site), Echoes (lower node.bare σ site) (lower node σ site)

variable {σ : Subject} {site : Site} {span : Span}

lemma echoes_lowerAtoms {nodes : List Node} (hs : ∀ node ∈ nodes, Placeless node) :
    Echoes (lowerAtoms (Node.bareAll nodes) σ site) (lowerAtoms nodes σ site) := by
  induction nodes with
  | nil => exact .refl _
  | cons node nodes ih =>
      rw [List.forall_mem_cons] at hs
      rw [Node.bareAll, lowerAtoms, lowerAtoms]
      exact (hs.1 σ site).atomOperand.bind fun a => (ih hs.2).bind fun as => .refl _

lemma echoes_lowerNamed {pairs : List Node} {name : String} (hs : ∀ pair ∈ pairs, Placeless pair) :
    Echoes (lowerNamed (Node.bareAll pairs) name σ site .nowhere)
      (lowerNamed pairs name σ site span) := by
  fun_induction Source.named span name pairs with
  | case1 labelSpan value rest =>
      simp only [Node.bareAll, Node.bare, lowerNamed, if_pos]
      exact (hs value (by simp) σ site).atomOperand
  | case2 label labelSpan value rest hne ih =>
      simp only [Node.bareAll, Node.bare, lowerNamed, if_neg hne]
      exact ih fun n hn => hs n (by simp [hn])
  | case3 pairs hnot =>
      have hbare : ∀ label place value rest,
          Node.bareAll pairs ≠ .face label place :: value :: rest := by
        intro label place value rest h
        rcases pairs with _ | ⟨first, _ | ⟨second, others⟩⟩
        · cases h
        · simp at h
        · cases first with
          | face label place => exact hnot label place second others rfl
          | _ => cases h
      rw [lowerNamed, lowerNamed]
      · exact echoes_subjectAtom
      · exact hnot
      · exact hbare

lemma placeless_tisfas {name value body : Node} (hv : Placeless value) (hb : Placeless body) :
    Placeless (.rune .tisfas [name, value, body] span) := by
  intro σ site
  simp only [Node.bare, Node.bareAll]
  cases name with
  | face face place =>
      rw [Node.bare, lower, lower]
      exact (hv σ site).operand.bind fun v => hb _ site
  | _ => exact .fail

lemma placeless_wutcol {test yes no : Node} (ht : Placeless test) (hy : Placeless yes)
    (hn : Placeless no) : Placeless (.rune .wutcol [test, yes, no] span) := by
  intro σ site
  simp only [Node.bare, Node.bareAll]
  rw [lower, lower]
  refine (ht σ site).operand.bind fun cond => ?_
  split
  · refine (Echoes.refl _).bind fun _ => (Echoes.refl _).bind fun _ => ?_
    refine (Echoes.refl _).bind fun _ => (hy σ _).bind fun _ => echoes_finish.bind fun _ => ?_
    exact (hn σ _).bind fun _ => echoes_finish.bind fun _ => .refl _
  · exact .fail

lemma placeless_barhep {body : Node} (hb : Placeless body) :
    Placeless (.rune .barhep [body] span) := by
  intro σ site
  simp only [Node.bare, Node.bareAll]
  rw [lower, lower]
  refine (echoes_define hb).bind fun trap => ?_
  exact (Echoes.mapM (fun _ => echoes_widen) _).bind fun as => .refl _

lemma placeless_bartis {sample body : Node} (hb : Placeless body) :
    Placeless (.rune .bartis [sample, body] span) := by
  intro σ site
  simp only [Node.bare, Node.bareAll]
  rw [lower, lower]
  refine (Echoes.ofExcept (toOption_sampleFacesFrom sample [])).bind fun samples => ?_
  exact (echoes_define hb).bind fun gate => .refl _

/-- A call of a built-in gate is `Placeless` if its arguments are. -/
lemma placeless_builtin {name : String} {builtin : Builtin} {place : Span} {args : List Node}
    (hname : Builtin.find? name = some builtin) (hs : ∀ arg ∈ args, Placeless arg) :
    Placeless (.rune .cenhep (.face name place :: args) span) := by
  intro σ site
  rcases args with _ | ⟨left, _ | ⟨right, _ | ⟨other, others⟩⟩⟩ <;>
    cases hconstant : builtin.constant <;>
    simp only [Node.bare, Node.bareAll, lower, Head.of, hname, hconstant]
  case cons.nil.some => exact (hs left (by simp) σ site).atomOperand.bind fun _ => .refl _
  case cons.cons.nil.none =>
    refine (hs left (by simp) σ site).atomOperand.bind fun _ => ?_
    exact (hs right (by simp) σ site).atomOperand.bind fun _ => .refl _
  all_goals exact .fail

lemma placeless_cenhep {target : Node} {args : List Node} (ht : Placeless target)
    (hs : ∀ arg ∈ args, Placeless arg) : Placeless (.rune .cenhep (target :: args) span) := by
  intro σ site
  have hcall : ∀ callee, Echoes
      (callWith σ site .nowhere callee (Node.bareAll args).length
        (lowerAtoms (Node.bareAll args) σ site))
      (callWith σ site span callee args.length (lowerAtoms args σ site)) := by
    intro callee
    rw [Node.length_bareAll]
    exact echoes_callWith (echoes_lowerAtoms hs)
  cases hhead : Head.of target with
  | here =>
      simp only [Node.bare, Node.bareAll, lower, Head.of_bare, hhead]
      exact hcall site.func
  | named name =>
      cases target with
      | face other place =>
          cases hname : Builtin.find? other with
          | some builtin => exact placeless_builtin hname hs σ site
          | none =>
              simp only [Node.bare, Node.bareAll, lower, Head.of, hname]
              exact echoes_gate.bind hcall
      | _ => cases hhead
  | computed =>
      simp only [Node.bare, Node.bareAll, lower, Head.of_bare, hhead]
      refine (ht σ site).operand.bind fun v => ?_
      split
      · exact hcall _
      · exact .fail
  | refused =>
      simp only [Node.bare, Node.bareAll, lower, Head.of_bare, hhead]
      exact .fail

lemma placeless_centis {target : Node} {pairs : List Node} (hs : ∀ pair ∈ pairs, Placeless pair) :
    Placeless (.rune .centis (target :: pairs) span) := by
  intro σ site
  have hcall : ∀ callee, Echoes (do
      Attempt.ofExcept (checkPairs .nowhere (Node.bareAll pairs))
      let params ← paramNames callee
      let args ← params.mapM fun name => lowerNamed (Node.bareAll pairs) name σ site .nowhere
      emit site (.call callee site.atom args) : Build (Option Value)) (do
      Attempt.ofExcept (checkPairs span pairs)
      let params ← paramNames callee
      let args ← params.mapM fun name => lowerNamed pairs name σ site span
      emit site (.call callee site.atom args)) := by
    intro callee
    refine (Echoes.ofExcept (toOption_checkPairs _ _ pairs)).bind fun _ => ?_
    refine (Echoes.refl _).bind fun params => ?_
    exact (Echoes.mapM (fun _ => echoes_lowerNamed hs) _).bind fun as => .refl _
  simp only [Node.bare, Node.bareAll]
  rw [lower, lower, Head.of_bare]
  split
  · exact hcall _
  · exact echoes_gate.bind hcall
  · exact .fail
  · exact .fail

/-- An application for which the rune has no code fails at its span with `uncodedFault`, whatever
its arguments are. -/
lemma lower_of_hasCode {r : Rune} {args : List Node} (hr : r ≠ .centis)
    (h : r.hasCode args.length = false) (span : Span) (σ : Subject) (site : Site) :
    lower (.rune r args span) σ site = fail span (uncodedFault r args) := by
  cases r, args using lowering with
  | centis => exact absurd rfl hr
  | uncoded r args hcode hfail => exact hfail span σ site
  | cenhep => simp [Rune.hasCode] at h
  | _ => cases h

/-- **Lowering a tree without its spans echoes lowering the tree.** -/
theorem echoes_lower (node : Node) : Placeless node := by
  induction node using Node.induction with
  | buc span => exact fun σ site => .refl _
  | pat span | dot span | cell head tail span => exact fun σ site => .fail
  | face name span =>
      intro σ site
      rw [Node.bare, lower, lower]
      split
      · exact .refl _
      · exact .fail
  | faced label value span ih =>
      intro σ site
      rw [Node.bare, lower, lower]
      exact ih σ site
  | num digits span =>
      intro σ site
      rw [Node.bare, lower, lower]
      exact (Echoes.ofExcept (toOption_numeral _ _ _ _)).bind fun v => .refl _
  | rune r args span ih =>
      cases r, args using lowering with
      | dottis left right =>
          intro σ site
          simp only [Node.bare, Node.bareAll]
          rw [lower, lower]
          refine (ih left (by simp) σ site).atomOperand.bind fun _ => ?_
          exact (ih right (by simp) σ site).atomOperand.bind fun _ => .refl _
      | dotlus value =>
          intro σ site
          simp only [Node.bare, Node.bareAll]
          rw [lower, lower]
          exact (ih value (by simp) σ site).atomOperand.bind fun _ => .refl _
      | tisfas name value body =>
          exact placeless_tisfas (ih value (by simp)) (ih body (by simp))
      | wutcol test yes no =>
          exact placeless_wutcol (ih test (by simp)) (ih yes (by simp)) (ih no (by simp))
      | barhep body => exact placeless_barhep (ih body (by simp))
      | bartis sample body => exact placeless_bartis (ih body (by simp))
      | cenhep target args =>
          rw [List.forall_mem_cons] at ih
          exact placeless_cenhep ih.1 ih.2
      | centis target pairs =>
          rw [List.forall_mem_cons] at ih
          exact placeless_centis ih.2
      | uncoded r args hcode hfail =>
          -- `%=` with a pair cut short has no code either, but fails only where its pairs are checked.
          by_cases hr : r = .centis
          · subst hr
            cases args with
            | nil => exact fun σ site => .fail
            | cons target pairs => exact placeless_centis fun pair hpair => ih pair (by simp [hpair])
          · intro σ site
            rw [hfail, Node.bare, lower_of_hasCode hr (by rwa [Node.length_bareAll])]
            exact .fail

/-- Lowering two trees that are equal up to spans echoes each other. -/
lemma echoes_of_bare_eq {n m : Node} (h : n.bare = m.bare) (σ : Subject) (site : Site) :
    Echoes (lower n σ site) (lower m σ site) := by
  have hm := echoes_lower m σ site
  rw [← h] at hm
  exact (echoes_lower n σ site).symm.trans hm

/-- Two trees whose lowerings echo each other have the same module, or both have none. -/
lemma toOption_toModule_of_echoes {n m : Node}
    (h : ∀ σ site, Echoes (lower n σ site) (lower m σ site)) (atom : Ty) (entry : String) :
    (n.toModule atom entry).toOption = (m.toModule atom entry).toOption := by
  have hentry : Echoes (lowerEntry atom entry n) (lowerEntry atom entry m) := by
    refine (Echoes.refl _).bind fun func => (Echoes.refl _).bind fun block => ?_
    exact (h _ _).bind fun r => echoes_finish.bind fun _ => .refl _
  obtain ⟨houtcome, hmodule⟩ := hentry .empty
  unfold Node.toModule
  rcases hx : lowerEntry atom entry n .empty with ⟨outcome, built⟩
  rcases hy : lowerEntry atom entry m .empty with ⟨outcome', built'⟩
  rw [hx, hy] at houtcome hmodule
  subst hmodule
  cases outcome <;> cases outcome' <;> cases houtcome <;> rfl

/-- **Two trees that are equal up to spans have the same module**, or both have none. -/
theorem toModule_congr {n m : Node} (h : n.bare = m.bare) (atom : Ty) (entry : String) :
    (n.toModule atom entry).toOption = (m.toModule atom entry).toOption :=
  toOption_toModule_of_echoes (echoes_of_bare_eq h) atom entry

end Lowering

end Runic
