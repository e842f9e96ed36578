import Runic.Proofs.Canonical.Slots
import Runic.Proofs.Lowering.Blame

/-!
# Slots are invisible

What code is made for a program does not depend on what the slots of a subject stand for: the code
of a program reads a slot only after it has bound it.  There is one way round: a function may have a
slot as a parameter, if its tree was not read from a source, and whoever calls it takes the value of
the parameter from the subject.  So the faces that may be read are those that are not reserved, and
the parameters of the functions that are there.

* `Sees` — two subjects agree on what may be read, and on slots that both of them bind.
* `Alike` — two attempts do the same, and if they fail then not for a slot.
* `alike_lower` — lowering a sealed tree under two such subjects is alike.
* `lower_slots_invisible` — **so slots are invisible to a program**.
-/

namespace Runic

open Ir

/-- Some function of the module has a parameter called `face`. -/
def Ir.Module.HasParam (m : Module) (face : String) : Prop :=
  ∃ F ∈ m.functions, ∃ p ∈ F.params, p.name = face

/-- The error calls no slot unbound or unknown, and a face that it misses is visible. -/
def Error.Names (visible : String → Prop) : Error → Prop
  | .lower _ (.unboundFace face) => isReserved face = false
  | .lower _ (.unknownGate face) => isReserved face = false
  | .lower _ (.missingFace face) => visible face
  | _ => True

namespace Lowering

open Attempt

/-- All parameters of functions of the module are visible. -/
def Shows (visible : String → Prop) (m : Module) : Prop := ∀ face, m.HasParam face → visible face

/-- From every module whose parameters are visible, the two builds are equal: they give the same
result or the same error, and leave the same module.  The parameters of that are visible again, and
an error `Names` no slot. -/
def Alike {α : Type} (visible : String → Prop) (x x' : Build α) : Prop :=
  ∀ m, Shows visible m →
    x m = x' m ∧ Meets x m (Error.Names visible) fun _ m' => Shows visible m'

/-- The subjects agree on what is visible and on `slots`, which both of them bind. -/
structure Sees (visible : String → Prop) (slots : List String) (σ σ' : Subject) : Prop where
  agree : ∀ face, visible face ∨ face ∈ slots → σ.get? face = σ'.get? face
  bound : ∀ face ∈ slots, σ.get? face ≠ none

variable {α β : Type} {visible : String → Prop} {slots : List String} {σ σ' : Subject} {site : Site}
  {span : Span}

/-! ## Rules -/

namespace Alike

lemma pure {a : α} : Alike visible (pure a) (pure a) := fun _ hm => ⟨rfl, .pure hm⟩

lemma fail {fault : LowerFault} (h : Error.Names visible (.lower span fault)) :
    Alike visible (fail span fault : Build α) (Lowering.fail span fault) :=
  fun _ _ => ⟨rfl, .fail h⟩

lemma bind {x x' : Build α} {f f' : α → Build β} (hx : Alike visible x x')
    (hf : ∀ a, Alike visible (f a) (f' a)) : Alike visible (x >>= f) (x' >>= f') := by
  intro m hm
  obtain ⟨heq, hmeets⟩ := hx m hm
  refine ⟨?_, hmeets.bind fun a t ht => (hf a t ht).2⟩
  rw [bind_apply, bind_apply, ← heq]
  unfold Meets at hmeets
  cases h : x m with
  | mk outcome t =>
      rw [h] at hmeets
      cases outcome with
      | error e => rfl
      | ok a => exact (hf a t hmeets).1

lemma ofExcept {r : Except Error α} {f f' : α → Build β}
    (herror : ∀ e, r = .error e → e.Names visible)
    (hf : ∀ a, r = .ok a → Alike visible (f a) (f' a)) :
    Alike visible (Attempt.ofExcept r >>= f) (Attempt.ofExcept r >>= f') := by
  cases r with
  | error e => exact fun _ _ => ⟨rfl, herror e rfl⟩
  | ok a => exact hf a rfl

lemma mapM {f f' : α → Build β} {as : List α} (h : ∀ a ∈ as, Alike visible (f a) (f' a)) :
    Alike visible (as.mapM f) (as.mapM f') := by
  induction as with
  | nil => exact pure
  | cons a as ih =>
      rw [List.mapM_cons, List.mapM_cons]
      refine (h a List.mem_cons_self).bind fun b => ?_
      exact (ih fun c hc => h c (List.mem_cons_of_mem _ hc)).bind fun bs => pure

/-- A change to a function is alike to itself, if it keeps the parameters and all its errors are the
builder's. -/
lemma onFunction {func : FuncId} {change : Attempt Function Error α}
    (hparams : ∀ F, (change F).2.params = F.params)
    (herror : ∀ F e F', change F = (.error e, F') → ∃ fault, e = .ir fault) :
    Alike visible (Build.onFunction func change) (Build.onFunction func change) := by
  intro m hm
  refine ⟨rfl, ?_⟩
  unfold Meets Build.onFunction
  cases hF : m.functions[func]? with
  | none => exact trivial
  | some F =>
      have hkept : Shows visible { m with functions := m.functions.set func (change F).2 } := by
        rintro face ⟨G, hG, p, hp, rfl⟩
        rcases List.mem_or_eq_of_mem_set hG with hG | rfl
        · exact hm _ ⟨G, hG, p, hp, rfl⟩
        · rw [hparams] at hp
          exact hm _ ⟨F, List.mem_of_getElem? hF, p, hp, rfl⟩
      cases hchange : change F with
      | mk outcome F' =>
          rw [hchange] at hkept
          simp only [hchange]
          cases outcome with
          | ok a => exact hkept
          | error e =>
              obtain ⟨fault, rfl⟩ := herror F e F' hchange
              exact trivial

end Alike

/-! ## The builder -/

lemma alike_append {op : Operation} :
    Alike visible (Build.append site.func site.block op)
      (Build.append site.func site.block op) := by
  refine .onFunction (fun F => ?_) fun _ _ _ h => append_eq_error h
  unfold Function.append
  dsimp only
  split <;> rfl

lemma alike_terminate {terminator : Terminator} :
    Alike visible (Build.terminate site.func site.block terminator)
      (Build.terminate site.func site.block terminator) := by
  refine .onFunction (fun F => ?_) fun _ _ _ h => terminate_eq_error h
  unfold Function.terminate
  split <;> rfl

lemma alike_addBlock {func : FuncId} :
    Alike visible (Build.addBlock func) (Build.addBlock func) :=
  .onFunction (fun _ => rfl) fun _ _ _ h => nomatch h

/-- Declaring a function whose parameters are visible is alike to itself. -/
lemma alike_addInternal {atom ret : Ty} {names : List String} (h : ∀ name ∈ names, visible name) :
    Alike visible (Build.addInternal (atomParams atom names) ret)
      (Build.addInternal (atomParams atom names) ret) := by
  refine fun m hm => ⟨rfl, ?_⟩
  rintro face ⟨F, hF, p, hp, rfl⟩
  rcases List.mem_append.1 hF with hF | hF
  · exact hm _ ⟨F, hF, p, hp, rfl⟩
  · obtain rfl := List.mem_singleton.1 hF
    obtain ⟨name, hname, rfl⟩ := List.mem_map.1 hp
    exact h name hname

/-- The names that `paramNames` gives are visible, so what follows it may rely on that. -/
lemma Alike.paramNames {callee : FuncId} {f f' : List String → Build β}
    (hf : ∀ names, (∀ name ∈ names, visible name) → Alike visible (f names) (f' names)) :
    Alike visible (paramNames callee >>= f) (Lowering.paramNames callee >>= f') := by
  intro m hm
  cases hF : m.functions[callee]? with
  | none =>
      have hrun : Lowering.paramNames callee m = (.error (.ir (.unknownFunction callee)), m) := by
        simp [Lowering.paramNames, Build.function, bind_apply, Attempt.ofExcept, Module.function,
          hF]
      unfold Meets
      rw [bind_apply, bind_apply, hrun]
      exact ⟨rfl, trivial⟩
  | some F =>
      have hrun : Lowering.paramNames callee m = (.ok (F.params.map Param.name), m) :=
        paramNames_eq_ok.2 ⟨F, hF, rfl, rfl⟩
      unfold Meets
      rw [bind_apply, bind_apply, hrun]
      refine hf _ (fun name hname => ?_) m hm
      obtain ⟨p, hp, rfl⟩ := List.mem_map.1 hname
      exact hm _ ⟨F, List.mem_of_getElem? hF, p, hp, rfl⟩

/-! ## Subjects -/

section

variable (hs : Sees visible slots σ σ')
include hs

lemma Sees.bind (face : String) (v : Value) :
    Sees visible (face :: slots) (σ.bind face v) (σ'.bind face v) where
  agree other hother := by
    rw [Subject.get?_bind, Subject.get?_bind]
    split
    · rfl
    · next hne =>
        refine hs.agree other (hother.imp_right fun h => ?_)
        exact (List.mem_cons.1 h).resolve_left hne
  bound other hother := by
    rw [Subject.get?_bind]
    split
    · simp
    · next hne => exact hs.bound other ((List.mem_cons.1 hother).resolve_left hne)

/-- Subjects inside of a function see the same, for no slots at all. -/
lemma Sees.inner (atom : Ty) (samples names : List String) :
    Sees visible [] (innerSubject σ samples (atomParams atom names))
      (innerSubject σ' samples (atomParams atom names)) where
  agree face hface := by
    have hvisible := hface.resolve_right List.not_mem_nil
    rw [get?_innerSubject, get?_innerSubject, hs.agree face (.inl hvisible)]
  bound _ hface := absurd hface List.not_mem_nil

/-- Two subjects that see the same have the same captured faces. -/
lemma Sees.capturedFaces_eq (hvisible : ∀ face, isReserved face = false → visible face)
    (samples : List String) : capturedFaces σ samples = capturedFaces σ' samples := by
  have hordered : ∀ σ : Subject, (capturedFaces σ samples).Pairwise fun a b => a.1 < b.1 :=
    fun σ => List.pairwise_map.1 (capturedFaces_pairwise σ samples)
  have hnodup : ∀ σ : Subject, (capturedFaces σ samples).Nodup := by
    intro σ
    refine (hordered σ).imp ?_
    rintro a _ hlt rfl
    exact String.lt_irrefl a.1 hlt
  refine List.Perm.eq_of_pairwise ?_ (hordered σ) (hordered σ') ?_
  · exact fun a b _ _ hab hba => absurd (String.lt_trans hab hba) (String.lt_irrefl _)
  · refine (List.perm_ext_iff_of_nodup (hnodup σ) (hnodup σ')).2 ?_
    rintro ⟨face, v⟩
    rw [mem_capturedFaces, mem_capturedFaces]
    by_cases hr : isReserved face = false
    · rw [hs.agree face (.inl (hvisible face hr))]
    · simp [hr]

end

/-! ## Operands and functions -/

lemma alike_emit {op : Operation} : Alike visible (emit site op) (emit site op) :=
  alike_append.bind fun _ => .pure

lemma alike_widen {v : Value} : Alike visible (widen site span v) (widen site span v) := by
  unfold widen
  split
  · exact alike_append
  · exact .pure
  · exact .fail trivial

lemma alike_finish {r : Option Value} :
    Alike visible (finish site span r) (finish site span r) := by
  cases r with
  | none => exact .pure
  | some v => exact alike_widen.bind fun _ => alike_terminate

section

variable {x x' : Build (Option Value)}

lemma Alike.operand (hx : Alike visible x x') :
    Alike visible (operand span x) (Lowering.operand span x') := by
  refine hx.bind fun r => ?_
  cases r with
  | none => exact .fail trivial
  | some v => exact .pure

lemma Alike.atomOperand (hx : Alike visible x x') :
    Alike visible (atomOperand site span x) (Lowering.atomOperand site span x') :=
  hx.operand.bind fun _ => alike_widen

end

section

variable (hs : Sees visible slots σ σ')
include hs

/-- The atom of a visible face is alike under both subjects. -/
lemma alike_subjectAtom {face : String} (hface : visible face) :
    Alike visible (subjectAtom σ site span face) (subjectAtom σ' site span face) := by
  unfold subjectAtom
  rw [← hs.agree face (.inl hface)]
  split
  · exact alike_widen
  · exact .fail hface

/-- A face of a sealed tree stands for the same in both subjects, and is bound there if it is a
slot. -/
lemma Sees.face {face : String} (hvisible : ∀ face, isReserved face = false → visible face)
    (hface : isReserved face = true → face ∈ slots) :
    σ.get? face = σ'.get? face ∧ (σ.get? face = none → isReserved face = false) := by
  cases hr : isReserved face with
  | false => exact ⟨hs.agree face (.inl (hvisible face hr)), fun _ => rfl⟩
  | true => exact ⟨hs.agree face (.inr (hface hr)), fun h => absurd h (hs.bound face (hface hr))⟩

lemma alike_gate {face : String} (hvisible : ∀ face, isReserved face = false → visible face)
    (hface : isReserved face = true → face ∈ slots) :
    Alike visible (gate σ span face) (gate σ' span face) := by
  obtain ⟨hget, hnone⟩ := hs.face hvisible hface
  unfold gate
  rw [← hget]
  split
  · exact .pure
  · exact .fail trivial
  · next h => exact .fail (hnone h)

lemma alike_define {atom : Ty} {captured samples : List String}
    {body : Subject → Site → Build (Option Value)}
    (hnames : ∀ name ∈ captured ++ samples, visible name)
    (hbody : ∀ {σ σ'}, Sees visible [] σ σ' → ∀ site, Alike visible (body σ site) (body σ' site)) :
    Alike visible (define atom σ captured samples span body)
      (define atom σ' captured samples span body) := by
  refine (alike_addInternal hnames).bind fun func => alike_addBlock.bind fun block => ?_
  refine (hbody (hs.inner atom samples _) _).bind fun r => ?_
  exact alike_finish.bind fun _ => .pure

lemma alike_callWith {callee : FuncId} {count : Nat} {args args' : Build (List Value)}
    (hargs : Alike visible args args') :
    Alike visible (callWith σ site span callee count args)
      (callWith σ' site span callee count args') := by
  refine .paramNames fun names hnames => ?_
  split
  · exact .fail trivial
  · refine (Alike.mapM fun name hname => ?_).bind fun first => ?_
    · exact alike_subjectAtom hs (hnames name (List.mem_of_mem_take hname))
    · exact hargs.bind fun last => alike_emit

end

/-! ## Trees -/

/-- Lowering the tree is alike under the two subjects, at every site. -/
def LowersAlike (visible : String → Prop) (node : Node) (σ σ' : Subject) : Prop :=
  ∀ site, Alike visible (lower node σ site) (lower node σ' site)

/-- A slot at the head of a call in a sealed tree is one of `slots`. -/
lemma mem_slots_of_head {target : Node} {name : String} (h : Sealed slots target)
    (hname : Head.of target = .named name) : isReserved name = true → name ∈ slots := by
  cases h with
  | face hface =>
      cases hname
      exact hface
  | _ => cases hname

/-- The samples of a mold without slots are no slots. -/
lemma isReserved_of_sampleFaces {mold : Node} (hm : Sealed [] mold) :
    ∀ {before samples : List String}, sampleFacesFrom before mold = .ok samples →
      (∀ face ∈ before, isReserved face = false) → ∀ face ∈ samples, isReserved face = false := by
  induction mold using Node.induction with
  | buc | pat | dot | face | num | rune =>
      intro before samples h
      simp [sampleFacesFrom] at h
  | faced label value span _ =>
      intro before samples h hbefore
      cases value with
      | pat place =>
          simp only [sampleFacesFrom] at h
          split at h <;> cases h
          rw [List.forall_mem_append]
          exact ⟨hbefore, by simpa using hm.isReserved_label⟩
      | _ => simp [sampleFacesFrom] at h
  | cell head tail span ihHead ihTail =>
      intro before samples h hbefore
      simp only [sampleFacesFrom, Runic.bind_eq_ok] at h
      obtain ⟨middle, hhead, htail⟩ := h
      cases hm with
      | cell hm hm' => exact ihTail hm' htail (ihHead hm hhead hbefore)

lemma alike_lowerAtoms {nodes : List Node} (h : ∀ n ∈ nodes, LowersAlike visible n σ σ') :
    Alike visible (lowerAtoms nodes σ site) (lowerAtoms nodes σ' site) := by
  induction nodes with
  | nil =>
      rw [lowerAtoms, lowerAtoms]
      exact .pure
  | cons node nodes ih =>
      rw [List.forall_mem_cons] at h
      rw [lowerAtoms, lowerAtoms]
      exact (h.1 site).atomOperand.bind fun a => (ih h.2).bind fun as => .pure

lemma alike_lowerNamed (hs : Sees visible slots σ σ') {pairs : List Node} {name : String}
    (hname : visible name) (h : ∀ n ∈ pairs, LowersAlike visible n σ σ') :
    Alike visible (lowerNamed pairs name σ site span) (lowerNamed pairs name σ' site span) := by
  fun_induction Source.named span name pairs with
  | case1 labelSpan value rest =>
      rw [lowerNamed, lowerNamed, if_pos rfl, if_pos rfl]
      exact (h value (by simp) site).atomOperand
  | case2 label labelSpan value rest hne ih =>
      rw [lowerNamed, lowerNamed, if_neg hne, if_neg hne]
      exact ih fun n hn => h n (by simp [hn])
  | case3 pairs hnot =>
      rw [lowerNamed, lowerNamed]
      · exact alike_subjectAtom hs hname
      · exact hnot
      · exact hnot

lemma alike_dottis {left right : Node} (hl : LowersAlike visible left σ σ')
    (hr : LowersAlike visible right σ σ') :
    LowersAlike visible (.rune .dottis [left, right] span) σ σ' := by
  intro site
  rw [lower, lower]
  refine (hl site).atomOperand.bind fun _ => (hr site).atomOperand.bind fun _ => ?_
  exact alike_emit

lemma alike_dotlus {value : Node} (hv : LowersAlike visible value σ σ') :
    LowersAlike visible (.rune .dotlus [value] span) σ σ' := by
  intro site
  rw [lower, lower]
  exact (hv site).atomOperand.bind fun _ => alike_emit

lemma alike_tisfas {name : String} {place : Span} {value body : Node}
    (hv : LowersAlike visible value σ σ')
    (hb : ∀ v, LowersAlike visible body (σ.bind name v) (σ'.bind name v)) :
    LowersAlike visible (.rune .tisfas [.face name place, value, body] span) σ σ' := by
  intro site
  rw [lower, lower]
  exact (hv site).operand.bind fun v => hb v site

lemma alike_wutcol {test yes no : Node} (ht : LowersAlike visible test σ σ')
    (hy : LowersAlike visible yes σ σ') (hn : LowersAlike visible no σ σ') :
    LowersAlike visible (.rune .wutcol [test, yes, no] span) σ σ' := by
  intro site
  rw [lower, lower]
  refine (ht site).operand.bind fun cond => ?_
  split
  · refine alike_addBlock.bind fun _ => alike_addBlock.bind fun _ => ?_
    refine alike_terminate.bind fun _ => ?_
    refine (hy _).bind fun _ => alike_finish.bind fun _ => ?_
    exact (hn _).bind fun _ => alike_finish.bind fun _ => .pure
  · exact .fail trivial

section

variable (hvisible : ∀ face, isReserved face = false → visible face)
include hvisible

/-- The parameters of a function, captured faces and samples, are visible. -/
lemma visible_params {samples : List String}
    (hsamples : ∀ face ∈ samples, isReserved face = false) :
    ∀ name ∈ (capturedFaces σ samples).map Prod.fst ++ samples, visible name := by
  rw [List.forall_mem_append]
  refine ⟨fun name hname => ?_, fun name hname => hvisible name (hsamples name hname)⟩
  obtain ⟨⟨face, v⟩, hmem, rfl⟩ := List.mem_map.1 hname
  exact hvisible face (mem_capturedFaces.1 hmem).2.2.1

variable (hs : Sees visible slots σ σ')
include hs

lemma alike_barhep {body : Node}
    (hb : ∀ {σ σ'}, Sees visible [] σ σ' → LowersAlike visible body σ σ') :
    LowersAlike visible (.rune .barhep [body] span) σ σ' := by
  intro site
  rw [lower, lower, ← hs.capturedFaces_eq hvisible]
  refine (alike_define hs (visible_params hvisible (by simp)) hb).bind fun trap => ?_
  exact (Alike.mapM fun _ _ => alike_widen).bind fun as => alike_emit

lemma alike_bartis {sample body : Node} (hsample : Sealed [] sample)
    (hb : ∀ {σ σ'}, Sees visible [] σ σ' → LowersAlike visible body σ σ') :
    LowersAlike visible (.rune .bartis [sample, body] span) σ σ' := by
  intro site
  rw [lower, lower]
  refine .ofExcept (fun e he => ?_) fun samples hsamples => ?_
  · obtain ⟨k, -, fault, rfl, hfault⟩ := sampleFacesFrom_eq_error he
    rcases hfault with rfl | rfl | ⟨name, rfl⟩ <;> trivial
  · dsimp only
    rw [← hs.capturedFaces_eq hvisible]
    have hnames := isReserved_of_sampleFaces hsample hsamples (by simp)
    exact (alike_define hs (visible_params hvisible hnames) hb).bind fun gate => .pure

lemma alike_centis {target : Node} {pairs : List Node} (hsealed : Sealed slots target)
    (hpairs : ∀ pair ∈ pairs, LowersAlike visible pair σ σ') :
    LowersAlike visible (.rune .centis (target :: pairs) span) σ σ' := by
  intro site
  have hcall : ∀ callee, Alike visible
      (do Attempt.ofExcept (checkPairs span pairs)
          let params ← paramNames callee
          let args ← params.mapM fun name => lowerNamed pairs name σ site span
          emit site (.call callee site.atom args) : Build (Option Value))
      (do Attempt.ofExcept (checkPairs span pairs)
          let params ← paramNames callee
          let args ← params.mapM fun name => lowerNamed pairs name σ' site span
          emit site (.call callee site.atom args)) := by
    intro callee
    refine .ofExcept (fun e he => ?_) fun _ _ => .paramNames fun names hnames => ?_
    · rcases checkPairs_eq_error he with ⟨-, rfl⟩ | ⟨k, -, rfl⟩ <;> trivial
    · refine (Alike.mapM fun name hname => ?_).bind fun as => alike_emit
      exact alike_lowerNamed hs (hnames name hname) hpairs
  rw [lower, lower]
  split
  · exact hcall _
  · next name hname => exact (alike_gate hs hvisible (mem_slots_of_head hsealed hname)).bind hcall
  · exact .fail trivial
  · exact .fail trivial

lemma alike_cenhep {target : Node} {args : List Node} (hsealed : Sealed slots target)
    (ht : LowersAlike visible target σ σ') (hargs : ∀ arg ∈ args, LowersAlike visible arg σ σ') :
    LowersAlike visible (.rune .cenhep (target :: args) span) σ σ' := by
  intro site
  have hcall : ∀ callee, Alike visible
      (callWith σ site span callee args.length (lowerAtoms args σ site))
      (callWith σ' site span callee args.length (lowerAtoms args σ' site)) :=
    fun _ => alike_callWith hs (alike_lowerAtoms hargs)
  rw [lower, lower]
  split
  · exact hcall _
  · next name hname =>
      split
      · split
        · exact (hargs _ (by simp) site).atomOperand.bind fun _ => alike_emit
        · refine (hargs _ (by simp) site).atomOperand.bind fun _ => ?_
          exact (hargs _ (by simp) site).atomOperand.bind fun _ => alike_emit
        · exact .fail trivial
      · exact (alike_gate hs hvisible (mem_slots_of_head hsealed hname)).bind hcall
  · refine (ht site).operand.bind fun v => ?_
    split
    · exact hcall _
    · exact .fail trivial
  · exact .fail trivial

end

lemma alike_rune (hvisible : ∀ face, isReserved face = false → visible face) {r : Rune}
    {args : List Node}
    (ih : ∀ arg ∈ args, ∀ {slots σ σ'}, Sealed slots arg → Sees visible slots σ σ' →
      LowersAlike visible arg σ σ')
    (hn : Sealed slots (.rune r args span)) (hs : Sees visible slots σ σ') :
    LowersAlike visible (.rune r args span) σ σ' := by
  -- what is lowered under the same subjects, and what is lowered inside of a function
  have harg : r ≠ .tisfas → ∀ arg ∈ args, LowersAlike visible arg σ σ' :=
    fun hr arg harg => ih arg harg (hn.operand hr arg harg) hs
  have hinside : r ≠ .tisfas → r ≠ .centis → ∀ arg ∈ args, ∀ {σ σ'}, Sees visible [] σ σ' →
      LowersAlike visible arg σ σ' :=
    fun hr hr' arg harg => ih arg harg (hn.inside hr hr' arg harg)
  cases r, args using lowering with
  | dottis left right =>
      exact alike_dottis (harg (by simp) _ (by simp)) (harg (by simp) _ (by simp))
  | dotlus value => exact alike_dotlus (harg (by simp) _ (by simp))
  | tisfas name value body =>
      cases name with
      | face name place =>
          obtain ⟨hvalue, hbody⟩ := hn.bound
          refine alike_tisfas (ih value (by simp) hvalue hs) fun v => ?_
          exact ih body (by simp) hbody (hs.bind name v)
      | _ =>
          intro site
          rw [lower, lower]
          · exact .fail trivial
          all_goals simp
  | wutcol test yes no =>
      exact alike_wutcol (harg (by simp) _ (by simp)) (harg (by simp) _ (by simp))
        (harg (by simp) _ (by simp))
  | barhep body => exact alike_barhep hvisible hs (hinside (by simp) (by simp) body (by simp))
  | bartis sample body =>
      refine alike_bartis hvisible hs ?_ (hinside (by simp) (by simp) body (by simp))
      exact hn.inside (by simp) (by simp) sample (by simp)
  | cenhep target args =>
      exact alike_cenhep hvisible hs (hn.operand (by simp) target (by simp))
        (harg (by simp) target (by simp)) fun arg h => harg (by simp) arg (by simp [h])
  | centis target pairs =>
      exact alike_centis hvisible hs (hn.operand (by simp) target (by simp))
        fun pair h => harg (by simp) pair (by simp [h])
  | uncoded r args _ hfail =>
      intro site
      rw [hfail, hfail, uncodedFault]
      split <;> exact .fail trivial

/-- **Lowering a sealed tree is alike under two subjects that agree on what is visible and on its
slots.** -/
theorem alike_lower (hvisible : ∀ face, isReserved face = false → visible face) {node : Node}
    (hn : Sealed slots node) (hs : Sees visible slots σ σ') : LowersAlike visible node σ σ' := by
  induction node using Node.induction generalizing slots σ σ' with
  | buc span =>
      intro site
      rw [lower, lower]
      exact .pure
  | pat span | dot span | cell head tail span =>
      intro site
      rw [lower, lower]
      exact .fail trivial
  | face name span =>
      intro site
      cases hn with
      | face hface =>
          obtain ⟨hget, hnone⟩ := hs.face hvisible hface
          rw [lower, lower, ← hget]
          split
          · exact .pure
          · next h => exact .fail (hnone h)
  | faced label value span ih =>
      intro site
      rw [lower, lower]
      exact ih hn.value hs site
  | num digits span =>
      intro site
      rw [lower, lower]
      refine .ofExcept (fun e he => ?_) fun _ _ => .pure
      obtain ⟨fault, rfl, hfault⟩ := numeral_eq_error he
      rcases hfault with ⟨-, rfl⟩ | ⟨bits, rfl⟩ <;> trivial
  | rune r args span ih => exact alike_rune hvisible (fun arg harg => ih arg harg) hn hs

/-- Declaring an exported function is alike to itself, since it has no parameters. -/
lemma alike_addEntry {entry : String} {ret : Ty} :
    Alike visible (Build.addEntry entry ret) (Build.addEntry entry ret) := by
  refine fun m hm => ⟨rfl, ?_⟩
  rintro face ⟨F, hF, p, hp, rfl⟩
  rcases List.mem_append.1 hF with hF | hF
  · exact hm _ ⟨F, hF, p, hp, rfl⟩
  · obtain rfl := List.mem_singleton.1 hF
    cases hp

/-- If `toModule` fails on a tree without free slots, the error names no slot. -/
lemma names_of_toModule {node : Node} {atom : Ty} {entry : String} {e : Error}
    (hn : Sealed [] node) (h : node.toModule atom entry = .error e) :
    e.Names fun face => isReserved face = false := by
  have hself : Sees (fun face => isReserved face = false) [] .empty .empty :=
    ⟨fun _ _ => rfl, fun _ hface => absurd hface List.not_mem_nil⟩
  have hentry : Alike (fun face => isReserved face = false) (lowerEntry atom entry node)
      (lowerEntry atom entry node) := by
    refine alike_addEntry.bind fun func => alike_addBlock.bind fun block => ?_
    exact (alike_lower (fun _ h => h) hn hself _).bind fun r => alike_finish.bind fun _ => .pure
  have hempty : Shows (fun face => isReserved face = false) Module.empty := by
    rintro face ⟨F, hF, -⟩
    cases hF
  rcases toModule_eq_error h with ⟨fault, rfl⟩ | ⟨m, hrun⟩
  · trivial
  · exact (hentry Module.empty hempty).2.error hrun

end Lowering

/-- **Slots are invisible to a program.**  Let a source be read and reduced.  In any state of a
module and at any place, its code does not depend on what slots stand for, except on those that a
function of the module has as parameters: subjects that agree on everything else give the same
result or the same error, and leave the same module.  It never fails for a slot that is unbound or
unknown, and for want of the value of one only if that is such a parameter; so as a program of its
own it never fails for a slot. -/
theorem lower_slots_invisible {source : String} {n m : Node} (hparse : parse source = .ok n)
    (hreduce : reduce n = .ok m) :
    (∀ module σ σ' site,
      (∀ face, isReserved face = false ∨ module.HasParam face → σ.get? face = σ'.get? face) →
        Lowering.lower m σ site module = Lowering.lower m σ' site module) ∧
    (∀ module σ site e module', Lowering.lower m σ site module = (.error e, module') →
      e.Names fun face => isReserved face = false ∨ module.HasParam face) ∧
    ∀ atom entry e, m.toModule atom entry = .error e →
      e.Names fun face => isReserved face = false := by
  have hsealed : Sealed [] m :=
    sealed_of_reduce (sealed_of_isLegible (isLegible_of_parse hparse)) hreduce
  have halike : ∀ (module : Module) (σ σ' : Subject) (site : Site),
      (∀ face, isReserved face = false ∨ module.HasParam face → σ.get? face = σ'.get? face) →
      Lowering.lower m σ site module = Lowering.lower m σ' site module ∧
        Attempt.Meets (Lowering.lower m σ site) module
          (Error.Names fun face => isReserved face = false ∨ module.HasParam face) _ :=
    fun module σ σ' site hagree => Lowering.alike_lower (fun _ h => .inl h) hsealed
      ⟨fun face hface => hagree face (hface.resolve_right List.not_mem_nil),
        fun _ hface => absurd hface List.not_mem_nil⟩ site module fun _ h => .inr h
  refine ⟨fun module σ σ' site h => (halike module σ σ' site h).1, ?_, ?_⟩
  · intro module σ site e module' hrun
    exact (halike module σ σ site fun _ _ => rfl).2.error hrun
  · exact fun atom entry e he => Lowering.names_of_toModule hsealed he

/-- A value for every name that `=:(a b, b a %*($ $ a add(a b)))` needs. -/
def namesSubject : Subject :=
  (Subject.empty.bind "a" (.const (.int 8) 3)).bind "b" (.const (.int 8) 4)

theorem lower_slots_invisible_jogging : ∃ n m,
    parse "=:(a b, b a %*($ $ a add(a b)))" = .ok n ∧ reduce n = .ok m ∧
      (namesSubject.bind "^a" (.func 0)).get? "^a" ≠ namesSubject.get? "^a" ∧
      (∃ v module', Lowering.lower m namesSubject ⟨.int 8, 0, 0⟩ (.withEntry "main" (.int 8)) =
        (.ok (some v), module')) ∧
      Lowering.lower m namesSubject ⟨.int 8, 0, 0⟩ (.withEntry "main" (.int 8)) =
        Lowering.lower m (namesSubject.bind "^a" (.func 0)) ⟨.int 8, 0, 0⟩
          (.withEntry "main" (.int 8)) := by
  have hrun : (parse "=:(a b, b a %*($ $ a add(a b)))").toOption.any (fun n =>
      (reduce n).toOption.any fun m =>
        (Lowering.lower m namesSubject ⟨.int 8, 0, 0⟩ (.withEntry "main" (.int 8))).1.toOption.any
          Option.isSome) = true := by
    decide +kernel
  obtain ⟨n, hparse, hrun⟩ := exists_of_any_toOption hrun
  obtain ⟨m, hreduce, hrun⟩ := exists_of_any_toOption hrun
  obtain ⟨r, module', hlower, hrun⟩ := exists_of_any_outcome hrun
  obtain ⟨v, rfl⟩ := Option.isSome_iff_exists.1 hrun
  refine ⟨n, m, hparse, hreduce, by decide, ⟨v, module', hlower⟩, ?_⟩
  refine (lower_slots_invisible hparse hreduce).1 _ _ _ _ fun face hface => ?_
  have hne : face ≠ "^a" := by
    rintro rfl
    rcases hface with hface | ⟨F, hF, p, hp, -⟩
    · exact absurd hface (by decide)
    · obtain rfl := List.mem_singleton.1 hF
      cases hp
  rw [Subject.get?_bind, if_neg hne]

/-- A gate whose sample is a slot.  No source is parsed as this tree. -/
def slotGate : Node :=
  let s : Span := ⟨0, 0⟩
  .rune .bartis [.faced "^x" (.pat s) s, .face "y" s] s

/-- It is not true in every module: a call in a function that has a slot as its parameter takes the
value of the slot from the subject. -/
theorem reserved_parameter_visible :
    ¬ ∀ (source : String) (n m tree : Node) (site : Site) (σ σ' : Subject),
      parse source = .ok n → reduce n = .ok m →
      (∀ face, isReserved face = false → σ.get? face = σ'.get? face) →
      Lowering.lower m σ site (Lowering.lower tree .empty site .empty).2 =
        Lowering.lower m σ' site (Lowering.lower tree .empty site .empty).2 := by
  intro hall
  have hrun : (parse "$()").toOption.any (fun n => (reduce n).toOption.any fun m =>
      let site : Site := ⟨.int 32, 0, 0⟩
      let state := (Lowering.lower slotGate .empty site .empty).2
      decide ((Lowering.lower m .empty site state).1.toOption = none ∧
        (Lowering.lower m (Subject.empty.bind "^x" (.const (.int 32) 5)) site state).1.toOption ≠
          none)) = true := by
    decide +kernel
  obtain ⟨n, hparse, hrun⟩ := exists_of_any_toOption hrun
  obtain ⟨m, hreduce, hrun⟩ := exists_of_any_toOption hrun
  obtain ⟨hnone, hsome⟩ := of_decide_eq_true hrun
  refine hsome ?_
  rw [← hall "$()" n m slotGate ⟨.int 32, 0, 0⟩ .empty _ hparse hreduce ?_]
  · exact hnone
  · intro face hface
    rw [Subject.get?_bind, if_neg]
    rintro rfl
    cases hface

end Runic
