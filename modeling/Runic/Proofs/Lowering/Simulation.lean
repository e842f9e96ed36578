import Runic.Proofs.Ir.Machine
import Runic.Proofs.Lowering.Evaluation
import Runic.Proofs.Lowering.Frame

/-!
# The code of a tree does what the tree means

The machine that runs a module and the evaluation of the tree it was made from go side by side.
While a tree is lowered at a place, the machine stands at that place, and

* the value that a face has in the subject denotes what the name stands for in the scope
  (`Matches`);
* a function that a face has in the subject is the code of the gate that the name stands for
  (`Codes`): its body was lowered under a subject that matches the gates known in it.

`Realizes` compares a run of the machine with an evaluation that may be cut off.  If it gives a
result, the machine gets to a state that agrees; if it was cut off at a depth of calls, the machine
is busy for at least that many steps; and it never gets stuck.  Hence the two directions of
`toModule_returns_iff`: a result of the tree is one of the code, and code that halts after some
steps belongs to a tree that needs no deeper calls.
-/

namespace Runic

open Ir Machine

variable {bits : Nat}

/-! ## Evaluations and runs -/

/-- From the state `s` the machine comes to a state with `post` if `x` succeeds, is busy for `steps`
steps if `x` is exhausted, and `x` is not stuck. -/
def Realizes {α : Type} (M : Module) (steps : Nat) (s : State bits) (x : Except Halt α)
    (post : α → State bits → Prop) : Prop :=
  match x with
  | .ok a => ∃ n, post a (run M s n)
  | .error .exhausted => (run M s steps).Busy
  | .error .stuck => False

namespace Realizes

variable {α β : Type} {M : Module} {n : Nat} {s : State bits} {x : Except Halt α}
  {P Q : α → State bits → Prop}

lemma ok {a : α} (h : P a s) : Realizes M n s (.ok a) P := ⟨0, h⟩

lemma imp (h : Realizes M n s x P) (hPQ : ∀ a t, P a t → Q a t) : Realizes M n s x Q := by
  match x, h with
  | .ok a, ⟨i, hi⟩ => exact ⟨i, hPQ a _ hi⟩
  | .error .exhausted, h => exact h

/-- If `x` is realized from the next state with `n` steps, then from this one with `n + 1`. -/
lemma step (h : Realizes M n (Machine.step M s) x P) : Realizes M (n + 1) s x P := by
  match x, h with
  | .ok a, ⟨i, hi⟩ => exact ⟨i + 1, hi⟩
  | .error .exhausted, h => exact h

lemma of_le {k : Nat} (h : Realizes M n s x P) (hk : k ≤ n) : Realizes M k s x P := by
  match x, h with
  | .ok a, h => exact h
  | .error .exhausted, h => exact busy_of_le hk h

lemma stepped (h : Realizes M n (Machine.step M s) x P) : Realizes M n s x P :=
  h.step.of_le (Nat.le_succ n)

/-- The machine may go on after the result is there: `post` may hold some steps later. -/
lemma extend (h : Realizes M n s x P) (hPQ : ∀ a t, P a t → ∃ i, Q a (run M t i)) :
    Realizes M n s x Q := by
  match x, h with
  | .error .exhausted, h => exact h
  | .ok a, ⟨i, hi⟩ =>
      obtain ⟨j, hj⟩ := hPQ a _ hi
      exact ⟨i + j, by rwa [run_add]⟩

/-- If the run is not busy after `n` steps, then `x` has succeeded. -/
lemma of_not_busy (h : Realizes M n s x P) (hn : ¬ (run M s n).Busy) :
    ∃ a, x = .ok a ∧ ∃ i, P a (run M s i) := by
  match x, h with
  | .ok a, h => exact ⟨a, rfl, h⟩
  | .error .exhausted, h => exact absurd h hn

/-- A sequence `x >>= f` is realized if `x` is, and `f` from where `x` ends. -/
lemma bind {f : α → Except Halt β} {R : β → State bits → Prop} (h : Realizes M n s x P)
    (hf : ∀ a t, P a t → Realizes M n t (f a) R) : Realizes M n s (x >>= f) R := by
  match x, h with
  | .error .exhausted, h => exact h
  | .ok a, ⟨i, hi⟩ =>
      have hnext := hf a _ hi
      change Realizes M n s (f a) R
      match f a, hnext with
      | .ok b, ⟨j, hj⟩ => exact ⟨i + j, by rwa [run_add]⟩
      | .error .exhausted, hbusy =>
          refine busy_of_le (Nat.le_add_left n i) ?_
          rwa [run_add]

end Realizes

namespace Lowering

/-! ## Frames and places -/

/-- The frame `frame'` is a later one of the same call: it has the same arguments and keeps all
results. -/
structure Later (frame frame' : Frame bits) : Prop where
  args : frame'.args = frame.args
  results : ∀ {id scalar}, frame.results id = some scalar → frame'.results id = some scalar

/-- The machine stands behind the last instruction of the block of `site`, and has no result with an
id that is yet to come. -/
structure At (frame : Frame bits) (m : Module) (site : Site) : Prop where
  func : frame.func = site.func
  block : frame.block = site.block
  place : ∃ F B, m.functions[site.func]? = some F ∧ F.blocks[site.block]? = some B ∧
    frame.index = B.insts.length ∧ ∀ id, F.nextInst ≤ id → frame.results id = none

section Places

variable {frame frame' frame'' : Frame bits} {m m' M : Module} {site : Site} {v : Value}

lemma Later.refl (frame : Frame bits) : Later frame frame := ⟨rfl, fun h => h⟩

lemma Later.trans (h : Later frame frame') (h' : Later frame' frame'') : Later frame frame'' :=
  ⟨h'.args.trans h.args, fun hr => h'.results (h.results hr)⟩

lemma Later.operand {scalar : Scalar bits} (h : Later frame frame')
    (hv : frame.operand v = some scalar) : frame'.operand v = some scalar := by
  cases v with
  | const ty number => exact hv
  | param ty name => rwa [Frame.operand, h.args]
  | inst ty id => exact h.results hv
  | func id => exact hv

lemma word_eq_some {word : BitVec bits} :
    frame.word v = some word ↔ frame.operand v = some (.word word) := by
  unfold Frame.word
  split
  · next h => simp [h]
  · next h => simpa using h word

lemma flag_eq_some {flag : Bool} :
    frame.flag v = some flag ↔ frame.operand v = some (.flag flag) := by
  unfold Frame.flag
  split
  · next h => simp [h]
  · next h => simpa using h flag

lemma Later.word {word : BitVec bits} (h : Later frame frame') (hv : frame.word v = some word) :
    frame'.word v = some word :=
  word_eq_some.2 (h.operand (word_eq_some.1 hv))

lemma Later.flag {flag : Bool} (h : Later frame frame') (hv : frame.flag v = some flag) :
    frame'.flag v = some flag :=
  flag_eq_some.2 (h.operand (flag_eq_some.1 hv))

lemma later_store {id : InstId} (h : frame.results id = none) (scalar : Scalar bits) :
    Later frame (frame.store id scalar) := by
  refine ⟨rfl, ?_⟩
  intro other known hr
  have hne : other ≠ id := by
    rintro rfl
    exact absurd (h.symm.trans hr) (by simp)
  simpa [Frame.store, hne] using hr

/-- If the module grows at another block, the machine is still at its site. -/
lemma At.elsewhere {f : FuncId} {b : BlockId} (h : At frame m site) (hg : m.GrowsAt f b m')
    (hne : f ≠ site.func ∨ b ≠ site.block) : At frame m' site := by
  obtain ⟨F, B, hF, hB, hi, hnone⟩ := h.place
  by_cases hf : f = site.func
  · subst hf
    obtain ⟨F', hF', hgF⟩ := hg.grows _ _ hF
    have hb : site.block ≠ b := fun he => hne.elim (fun h => h rfl) fun h => h he.symm
    exact ⟨h.func, h.block, F', B, hF', hg.blocks F F' _ B hF hF' hb hB, hi,
      fun id hid => hnone id (Nat.le_trans hgF.nextInst hid)⟩
  · exact ⟨h.func, h.block, F, B, hg.function _ F (Ne.symm hf) hF, hB, hi, hnone⟩

/-- At its site the machine executes the operation that is appended there next. -/
lemma At.append {op : Operation} (h : At frame m site)
    (app : Build.append site.func site.block op m = (.ok v, m')) (hg : m'.Grows M) :
    ∃ id, v = .inst op.ty id ∧ frame.results id = none ∧
      (∀ callers, step M (.running frame callers) = execute M frame callers ⟨id, op⟩) ∧
      ∀ scalar, At (frame.store id scalar) m' site := by
  obtain ⟨F, B, hF, hB, hi, hnone⟩ := h.place
  obtain ⟨F₀, B₀, hF₀, hB₀, _, rfl, rfl⟩ := Build.append_eq_ok.1 app
  rw [hF, Option.some.injEq] at hF₀
  subst hF₀
  rw [hB, Option.some.injEq] at hB₀
  subst hB₀
  have hput : (m.put site.func (F.push site.block op)).functions[site.func]? =
      some (F.push site.block op) := Module.put_function hF
  have hpush : (F.push site.block op).blocks[site.block]? =
      some { B with insts := B.insts ++ [⟨F.nextInst, op⟩] } := Function.push_block hB
  refine ⟨F.nextInst, rfl, hnone _ (Nat.le_refl _), ?_, ?_⟩
  · intro callers
    obtain ⟨F', hF', hgF⟩ := hg _ _ hput
    obtain ⟨B', hB', hgB⟩ := hgF.blocks _ _ hpush
    obtain ⟨rest, hrest⟩ := hgB.insts
    have hinst : B'.insts[frame.index]? = some ⟨F.nextInst, op⟩ := by
      rw [← hrest, hi]
      simp
    simp [step, h.func, h.block, hF', hB', hinst]
  · intro scalar
    refine ⟨h.func, h.block, _, _, hput, hpush, ?_, ?_⟩
    · simp [Frame.store, hi]
    · intro id hid
      have hid' : F.nextInst + 1 ≤ id := hid
      have hne : id ≠ F.nextInst := Nat.ne_of_gt hid'
      simpa [Frame.store, hne] using hnone id (Nat.le_of_succ_le hid')

/-- Behind the last instruction of a closed block the machine executes its terminator. -/
lemma step_of_closed {F : Function} {B : Block} {t : Terminator} {func : FuncId}
    {block : BlockId} (hfunc : frame.func = func) (hblock : frame.block = block)
    (hF : m.functions[func]? = some F)
    (hB : F.blocks[block]? = some { B with terminator := some t })
    (hi : frame.index = B.insts.length) (hg : m.Grows M) (callers : List (Frame bits × InstId)) :
    step M (.running frame callers) = leave frame callers t := by
  obtain ⟨F', hF', hgF⟩ := hg _ _ hF
  obtain ⟨B', hB', hgB⟩ := hgF.blocks _ _ hB
  have hsame := hgB.closed (by simp)
  subst hsame
  simp [step, hfunc, hblock, hF', hB', hi]

lemma At.terminate {t : Terminator} (h : At frame m site)
    (term : Build.terminate site.func site.block t m = (.ok (), m')) (hg : m'.Grows M)
    (callers : List (Frame bits × InstId)) :
    step M (.running frame callers) = leave frame callers t := by
  obtain ⟨F, B, hF, hB, hi, _⟩ := h.place
  obtain ⟨F₀, B₀, hF₀, hB₀, _, rfl⟩ := Build.terminate_eq_ok.1 term
  rw [hF, Option.some.injEq] at hF₀
  subst hF₀
  exact step_of_closed h.func h.block (Module.put_function hF) (Function.close_block hB) hi hg
    callers

/-- At its site the machine executes the branch to two new blocks, and is at the beginning of one of
them. -/
lemma At.fork {cond : Value} {F : Function} (h : At frame m site)
    (hF : m.functions[site.func]? = some F)
    (term : Build.terminate site.func site.block
      (.condBr cond F.blocks.length (F.blocks.length + 1)) (m.put site.func F.open.open) =
        (.ok (), m')) (hg : m'.Grows M) :
    (∀ callers, step M (.running frame callers) =
      leave frame callers (.condBr cond F.blocks.length (F.blocks.length + 1))) ∧
      ∀ block, block = F.blocks.length ∨ block = F.blocks.length + 1 →
        At (frame.jump block) m' { site with block := block } := by
  obtain ⟨F₀, B, hF₀, hB, hi, hnone⟩ := h.place
  rw [hF, Option.some.injEq] at hF₀
  subst hF₀
  obtain ⟨_, rfl⟩ := Build.terminate_fork hF hB term
  have hput : (m.put site.func (F.fork site.block cond)).functions[site.func]? =
      some (F.fork site.block cond) := Module.put_function hF
  refine ⟨?_, ?_⟩
  · exact step_of_closed h.func h.block hput
      (Function.close_block (Function.open_block (Function.open_block hB))) hi hg
  · intro block hnew
    exact ⟨h.func, rfl, _, _, hput, Function.fork_block_new hB hnew, rfl, hnone⟩

end Places

/-! ## Values and what they denote -/

/-- The function of the module is the code of a gate: the body of the gate was lowered in it, under
a subject that has the parameters, and for the gates known in the body their code. -/
inductive Codes (bits : Nat) (M : Module) : FuncId → Gate → Prop
  | mk {id : FuncId} {names : List String} {known : List (String × Gate)} {body : Node}
      {σ : Subject} {linkage : Linkage} {m m' : Module}
      (declared : m.functions[id]? =
        some ⟨linkage, atomParams (.int bits) names, .int bits, [.empty], 0⟩)
      (lowered : LowersBody body σ (entrySite (.int bits) id) m m') (grows : m'.Grows M)
      (params : ∀ face ∈ names, σ.get? face = some (.param (.int bits) face))
      (functions : ∀ {face v}, face ∉ names → σ.get? face = some v → ∃ id', v = .func id')
      (gates : ∀ {face}, face ∉ names → (σ.get? face).isSome = (known.lookup face).isSome)
      (coded : ∀ {face id' gate}, face ∉ names → σ.get? face = some (.func id') →
        known.lookup face = some gate → Codes bits M id' gate) :
      Codes bits M id (.mk names known body)

/-- The value has in the frame the word or flag of a datum, or it is the function that is the code
of a gate. -/
inductive Denotes (M : Module) (frame : Frame bits) : Value → Datum bits → Prop
  | atom {v : Value} {word : BitVec bits} (ty : v.ty? = some (.int bits))
      (held : frame.word v = some word) : Denotes M frame v (.atom word)
  | truth {v : Value} {flag : Bool} (ty : v.ty? = some .bool) (held : frame.flag v = some flag) :
      Denotes M frame v (.truth flag)
  | gate {id : FuncId} {gate : Gate} (codes : Codes bits M id gate) :
      Denotes M frame (.func id) (.gate gate)

/-- The subject and the scope have the same faces, and the values of one denote the data of the
other. -/
def Matches (M : Module) (frame : Frame bits) (σ : Subject) (ρ : Scope bits) : Prop :=
  ∀ face, Option.Rel (Denotes M frame) (σ.get? face) (ρ.lookup face)

section Values

variable {M : Module} {frame frame' : Frame bits} {v : Value} {d : Datum bits} {σ : Subject}
  {ρ : Scope bits}

lemma Denotes.later (h : Denotes M frame v d) (hl : Later frame frame') :
    Denotes M frame' v d := by
  cases h with
  | atom ty held => exact .atom ty (hl.word held)
  | truth ty held => exact .truth ty (hl.flag held)
  | gate codes => exact .gate codes

lemma Denotes.isSome_func? (h : Denotes M frame v d) : v.func?.isSome = d.gate?.isSome := by
  cases h with
  | atom ty _ | truth ty _ =>
      cases v with
      | func id => simp [Value.ty?] at ty
      | _ => rfl
  | gate codes => rfl

lemma Matches.later (h : Matches M frame σ ρ) (hl : Later frame frame') :
    Matches M frame' σ ρ := by
  intro face
  have hrel := h face
  generalize σ.get? face = x, ρ.lookup face = y at hrel
  cases hrel with
  | some hd => exact .some (hd.later hl)
  | none => exact .none

lemma Matches.bind (h : Matches M frame σ ρ) (hd : Denotes M frame v d) (face : String) :
    Matches M frame (σ.bind face v) ((face, d) :: ρ) := by
  intro other
  rw [Subject.get?_bind, lookup_cons_if]
  split
  · exact .some hd
  · exact h other

/-- If a face has a value in the subject, then its name has a datum in the scope, which the value
denotes. -/
lemma Matches.get (h : Matches M frame σ ρ) {face : String} (hv : σ.get? face = some v) :
    ∃ d, ρ.lookup face = some d ∧ Denotes M frame v d := by
  have hrel := h face
  rw [hv] at hrel
  cases hρ : ρ.lookup face with
  | none => rw [hρ] at hrel; cases hrel
  | some d =>
      rw [hρ] at hrel
      cases hrel with
      | some hd => exact ⟨d, rfl, hd⟩

/-! ## What a function takes over -/

lemma mem_captured {samples : List String} {face : String} :
    face ∈ ρ.captured samples ↔
      (∃ d, ρ.lookup face = some d ∧ d.gate? = none) ∧ isReserved face = false ∧
        face ∉ samples := by
  have hdata : ρ.isData face = true ↔ ∃ d, ρ.lookup face = some d ∧ d.gate? = none := by
    unfold Scope.isData
    cases ρ.lookup face <;> simp
  have hmem : (∃ d, ρ.lookup face = some d ∧ d.gate? = none) → face ∈ ρ.map Prod.fst := by
    rintro ⟨d, hd, _⟩
    obtain ⟨l, r, hρ, _⟩ := List.lookup_eq_some_iff.1 hd
    simp [hρ]
  simp only [Scope.captured, List.mem_insertionSort, List.mem_filter, List.mem_dedup,
    Bool.and_eq_true, Bool.not_eq_true', hdata, and_assoc]
  constructor
  · rintro ⟨_, hd, hr, hs⟩
    exact ⟨hd, hr, by simpa using hs⟩
  · rintro ⟨hd, hr, hs⟩
    exact ⟨hmem hd, hd, hr, by simpa using hs⟩

/-- The captured names of the scope are the captured faces of the subject, in the same order. -/
lemma Matches.captured (h : Matches M frame σ ρ) (samples : List String) :
    ρ.captured samples = (capturedFaces σ samples).map Prod.fst := by
  have hnodup : (ρ.captured samples).Nodup :=
    (List.perm_insertionSort _ _).nodup_iff.2 ((List.nodup_dedup _).filter _)
  have hperm : (ρ.captured samples).Perm ((capturedFaces σ samples).map Prod.fst) := by
    refine (List.perm_ext_iff_of_nodup hnodup (capturedFaces_nodup σ samples)).2 fun face => ?_
    rw [mem_captured]
    simp only [List.mem_map, Prod.exists, exists_and_right, exists_eq_right, mem_capturedFaces]
    have hrel := h face
    generalize σ.get? face = x, ρ.lookup face = y at hrel
    cases hrel with
    | @some v d hd =>
        have hkind : d.gate? = none ↔ v.func? = none := by
          rw [← Option.not_isSome_iff_eq_none, ← Option.not_isSome_iff_eq_none, hd.isSome_func?]
        simp [hkind]
    | none => simp
  refine hperm.eq_of_pairwise (fun a b _ _ => le_antisymm) (List.pairwise_insertionSort _ _) ?_
  exact (capturedFaces_pairwise σ samples).imp fun hlt => le_of_lt hlt

lemma lookup_gates (ρ : Scope bits) (samples : List String) (face : String) :
    (ρ.gates samples).lookup face = ρ.gate? samples face := by
  have hmap : ∀ names : List String,
      (names.filterMap fun name => (ρ.gate? samples name).map (name, ·)).lookup face =
        if face ∈ names then ρ.gate? samples face else none := by
    intro names
    induction names with
    | nil => rfl
    | cons name rest ih =>
        by_cases hface : face = name
        · subst hface
          cases hg : ρ.gate? samples face with
          | none => simp [hg, ih]
          | some gate => simp [hg]
        · cases hg : ρ.gate? samples name with
          | none => simp [hg, ih, hface]
          | some gate => simp [hg, lookup_cons_if, ih, hface]
  rw [Scope.gates, hmap]
  split
  · rfl
  · next hface =>
      have hnone : ρ.lookup face = none := by
        rw [List.lookup_eq_none_iff]
        intro p hp
        have hne : face ≠ p.1 := fun he => hface (he ▸ List.mem_map_of_mem hp)
        simpa using hne
      simp [Scope.gate?, hnone]

/-- A function in which a body is lowered under the inner subject is the code of the gate of that
body in the scope. -/
lemma codes_of_lowersBody {names samples : List String} {body : Node} {m m' : Module}
    (h : Matches M frame σ ρ)
    (lowered : LowersBody body (innerSubject σ samples (atomParams (.int bits) names))
      (entrySite (.int bits) m.functions.length)
      (m.withInternal (atomParams (.int bits) names) (.int bits)) m')
    (hg : m'.Grows M) : Codes bits M m.functions.length (.mk names (ρ.gates samples) body) := by
  refine .mk (m.withInternal_function _ _) lowered hg ?_ ?_ ?_ ?_
  · intro face hface
    rw [get?_innerSubject, if_pos hface]
  · intro face v hface hv
    rw [get?_innerSubject, if_neg hface] at hv
    have hfunc := (Option.filter_eq_some_iff.1 hv).2
    cases v with
    | func id => exact ⟨id, rfl⟩
    | _ => simp [Value.func?] at hfunc
  · intro face hface
    rw [get?_innerSubject, if_neg hface, lookup_gates, Scope.gate?]
    have hrel := h face
    generalize σ.get? face = x, ρ.lookup face = y at hrel
    cases hrel with
    | none => simp
    | @some v d hd =>
        have hkind := hd.isSome_func?
        by_cases hs : face ∈ samples
        · simp [hs, Option.filter]
        · cases hv : v.func?.isSome <;> simp [hs, Option.filter, hv, ← hkind]
  · intro face id gate hface hv hgate
    rw [get?_innerSubject, if_neg hface] at hv
    obtain ⟨d, hd, hden⟩ := h.get (Option.filter_eq_some_iff.1 hv).1
    rw [lookup_gates, Scope.gate?, hd] at hgate
    cases hden with
    | atom ty _ | truth ty _ => simp [Value.ty?] at ty
    | gate codes =>
        split at hgate
        · exact absurd hgate (by simp)
        · obtain rfl : _ = gate := by simpa [Datum.gate?] using hgate
          exact codes

end Values

/-! ## Arguments -/

section Sources

variable (call : Gate → List (BitVec bits) → Except Halt (BitVec bits)) (self : Gate)
  (ρ : Scope bits)

/-- The atom that the source of an argument evaluates to. -/
def evalSource : Source → Except Halt (BitVec bits)
  | .tree node => do (← eval call self node ρ).word
  | .face name _ => ρ.word name

lemma evalWords_eq (args : List Node) :
    evalWords call self args ρ = (args.map .tree).mapM (evalSource call self ρ) := by
  induction args with
  | nil => rfl
  | cons arg args ih => simp [evalWords, ih, evalSource]

lemma evalNamed_eq (span : Span) (name : String) (pairs : List Node) :
    evalNamed call self pairs name ρ = evalSource call self ρ (Source.named span name pairs) := by
  fun_induction Source.named span name pairs with
  | case1 labelSpan value rest => simp [evalNamed, evalSource]
  | case2 label labelSpan value rest hne ih => simp [evalNamed, hne, ih]
  | case3 pairs hnot => simp [evalNamed, evalSource]

lemma mapM_word_eq (span : Span) (names : List String) :
    names.mapM ρ.word = (names.map (.face · span)).mapM (evalSource call self ρ) := by
  rw [List.mapM_map]
  rfl

lemma evalSource_face {name : String} {d : Datum bits} (h : ρ.lookup name = some d) (span : Span) :
    evalSource call self ρ (.face name span) = d.word := by
  simp only [evalSource, Scope.word, Scope.get, h]
  rfl

/-- The datum that two words give; any other number of words is stuck. -/
def onTwo (f : BitVec bits → BitVec bits → Datum bits) :
    List (BitVec bits) → Except Halt (Datum bits)
  | [a, b] => .ok (f a b)
  | _ => .error .stuck

/-- The datum that one word gives; any other number of words is stuck. -/
def onOne (f : BitVec bits → Datum bits) : List (BitVec bits) → Except Halt (Datum bits)
  | [a] => .ok (f a)
  | _ => .error .stuck

lemma eval_dottis (left right : Node) (span : Span) :
    eval call self (.rune .dottis [left, right] span) ρ =
      [.tree left, .tree right].mapM (evalSource call self ρ) >>=
        onTwo fun a b => .truth (a == b) := by
  simp only [eval, evalSource, List.mapM_cons, List.mapM_nil, bind_assoc]
  rfl

lemma eval_dotlus (node : Node) (span : Span) :
    eval call self (.rune .dotlus [node] span) ρ =
      [.tree node].mapM (evalSource call self ρ) >>= onOne fun a => .atom (a + 1) := by
  simp only [eval, evalSource, List.mapM_cons, List.mapM_nil, bind_assoc]
  rfl

lemma eval_arithmetic {name : String} {f : List (BitVec bits) → Option (BitVec bits)}
    (known : arithmetic bits name = some f) (nameSpan : Span) (args : List Node) (span : Span) :
    eval call self (.rune .cenhep (.face name nameSpan :: args) span) ρ =
      (args.map .tree).mapM (evalSource call self ρ) >>= fun words =>
        match f words with
        | some word => .ok (.atom word)
        | none => .error .stuck := by
  simp only [eval, Node.face?, Option.bind_some, known, evalWords_eq]
  rfl

lemma eval_barhep (body : Node) (span : Span) :
    eval call self (.rune .barhep [body] span) ρ = do
      let words ← ((ρ.captured []).map (.face · span)).mapM (evalSource call self ρ)
      return .atom (← call (.mk (ρ.captured []) (ρ.gates []) body) words) := by
  simp only [eval, mapM_word_eq call self ρ span]

lemma eval_cenhep {target : Node} (unknown : target.face?.bind (arithmetic bits) = none)
    (args : List Node) (span : Span) :
    eval call self (.rune .cenhep (target :: args) span) ρ =
      headGate self target (eval call self target ρ) >>= fun gate =>
        if args.length ≤ gate.params.length then do
          let words ← (Source.positional span gate.params args).mapM (evalSource call self ρ)
          return .atom (← call gate words)
        else .error .stuck := by
  simp only [eval, unknown, evalWords_eq, mapM_word_eq call self ρ span, Source.positional,
    List.mapM_append, bind_assoc, pure_bind]

lemma eval_centis (target : Node) (pairs : List Node) (span : Span) :
    eval call self (.rune .centis (target :: pairs) span) ρ =
      headGate self target (eval call self target ρ) >>= fun gate => do
        let words ← (gate.params.map (Source.named span · pairs)).mapM (evalSource call self ρ)
        return .atom (← call gate words) := by
  simp only [eval, List.mapM_map, evalNamed_eq call self ρ span]
  rfl

end Sources

/-! ## One step of the code -/

/-- The hypotheses for lowering a tree at a site and evaluating it in a scope: the machine is at the
site, the subject matches the scope, and the function is the code of the gate. -/
structure Stands (M : Module) (here : Gate) (σ : Subject) (ρ : Scope bits) (site : Site)
    (frame : Frame bits) (m : Module) : Prop where
  atom : site.atom = .int bits
  place : At frame m site
  codes : Codes bits M site.func here
  scope : Matches M frame σ ρ

/-- The machine runs a later frame of the same call, at the site as it is in `m`. -/
def Reached (site : Site) (frame : Frame bits) (m : Module)
    (callers : List (Frame bits × InstId)) (P : Frame bits → Prop) (s : State bits) : Prop :=
  ∃ frame', s = .running frame' callers ∧ Later frame frame' ∧ At frame' m site ∧ P frame'

/-- The arguments have in the frame the words `words`. -/
def HasWords (as : List Value) (words : List (BitVec bits)) (frame : Frame bits) : Prop :=
  List.Forall₂ (fun a word => frame.word a = some word) as words

/-- For every gate with code in the module, running that code realizes `call`, for `steps` steps if
it is exhausted. -/
def Calls (M : Module) (steps : Nat)
    (call : Gate → List (BitVec bits) → Except Halt (BitVec bits)) : Prop :=
  ∀ {id gate words callers}, Codes bits M id gate → words.length = gate.params.length →
    Realizes M steps (.running (.enter id (atomParams (.int bits) gate.params) words) callers)
      (call gate words) fun word s => s = resume word callers

section Steps

variable {M m m' : Module} {self : Gate} {σ : Subject} {ρ : Scope bits} {site : Site}
  {frame frame' : Frame bits} {callers : List (Frame bits × InstId)} {v : Value}
  {P Q : Frame bits → Prop} {s : State bits} {n : Nat}

lemma Stands.move (h : Stands M self σ ρ site frame m) (hl : Later frame frame')
    (ha : At frame' m' site) : Stands M self σ ρ site frame' m' :=
  ⟨h.atom, ha, h.codes, h.scope.later hl⟩

lemma Reached.refl (ha : At frame m site) (hP : P frame) :
    Reached site frame m callers P (.running frame callers) :=
  ⟨frame, rfl, .refl frame, ha, hP⟩

lemma Reached.later (hl : Later frame frame') (h : Reached site frame' m callers P s)
    (hPQ : ∀ fr, Later frame' fr → P fr → Q fr) : Reached site frame m callers Q s := by
  obtain ⟨fr, hs, hl', ha, hP⟩ := h
  exact ⟨fr, hs, hl.trans hl', ha, hPQ fr hl' hP⟩

/-- An operation that is no call is executed in one step, behind which its result has the value
computed. -/
lemma At.computed {op : Operation} {scalar : Scalar bits} (h : At frame m site)
    (app : Build.append site.func site.block op m = (.ok v, m')) (hg : m'.Grows M)
    (hc : frame.compute op = some scalar) :
    Reached site frame m' callers (fun fr => fr.operand v = some scalar)
      (step M (.running frame callers)) := by
  obtain ⟨id, rfl, hnone, hstep, hat⟩ := h.append app hg
  refine ⟨frame.store id scalar, ?_, later_store hnone scalar, hat scalar, ?_⟩
  · rw [hstep]
    cases op with
    | call callee ret args => exact absurd hc (by simp [Frame.compute])
    | _ => simp [execute, hc]
  · simp [Frame.operand, Frame.store]

lemma HasWords.mapM_eq {as : List Value} {words : List (BitVec bits)}
    (h : HasWords as words frame) : as.mapM frame.word = some words := by
  induction h with
  | nil => rfl
  | cons ha _ ih => simp [List.mapM_cons, ha, ih]

lemma Codes.function {id : FuncId} {gate : Gate} (h : Codes bits M id gate) :
    ∃ F, M.functions[id]? = some F ∧ F.params = atomParams (.int bits) gate.params := by
  cases h with
  | mk declared lowered grows _ _ _ _ =>
      obtain ⟨F, hF, hgF⟩ := (lowered.growsAt.grows.trans grows) _ _ declared
      exact ⟨F, hF, hgF.params⟩

/-- A call is executed by entering the callee and, when that returns, going on behind the call with
the word returned. -/
lemma At.called {call : Gate → List (BitVec bits) → Except Halt (BitVec bits)} {callee : FuncId}
    {gate : Gate} {ty : Ty} {as : List Value} {words : List (BitVec bits)} (hcall : Calls M n call)
    (h : At frame m site)
    (app : Build.append site.func site.block (.call callee ty as) m = (.ok v, m'))
    (hg : m'.Grows M) (codes : Codes bits M callee gate)
    (hargs : HasWords as words frame)
    (hlen : words.length = gate.params.length) :
    Realizes M (n + 1) (.running frame callers) (call gate words) fun word =>
      Reached site frame m' callers fun fr => fr.word v = some word := by
  obtain ⟨id, rfl, hnone, hstep, hat⟩ := h.append app hg
  obtain ⟨F, hF, hparams⟩ := codes.function
  refine Realizes.step ?_
  have henter : step M (.running frame callers) =
      .running (.enter callee (atomParams (.int bits) gate.params) words)
        ((frame, id) :: callers) := by
    rw [hstep]
    simp [execute, hF, hargs.mapM_eq, hparams, hlen, atomParams]
  rw [henter]
  refine (hcall codes hlen).imp ?_
  rintro word _ rfl
  refine ⟨frame.store id (.word word), rfl, later_store hnone _, hat _, ?_⟩
  exact word_eq_some.2 (by simp [Frame.operand, Frame.store])

/-- The code that `widen` makes realizes `Datum.word`. -/
lemma realizes_widen {span : Span} {a : Value} {d : Datum bits} (hatom : site.atom = .int bits)
    (h : At frame m site) (hd : Denotes M frame v d) (hw : widen site span v m = (.ok a, m'))
    (hg : m'.Grows M) :
    Realizes M n (.running frame callers) d.word fun word =>
      Reached site frame m' callers fun fr => fr.word a = some word := by
  rcases widen_eq_ok.1 hw with ⟨hbool, app⟩ | ⟨b, hint, rfl, rfl⟩
  · cases hd with
    | atom ty _ => exact absurd (hbool.symm.trans ty) (by simp)
    | gate _ => exact absurd hbool (by simp [Value.ty?])
    | @truth _ flag ty held =>
        refine Realizes.stepped (.ok ?_)
        exact (h.computed app hg (Frame.compute_zext hatom held)).later (.refl frame)
          fun fr _ => word_eq_some.2
  · cases hd with
    | atom ty held => exact .ok (.refl h held)
    | truth ty _ => exact absurd (hint.symm.trans ty) (by simp)
    | gate _ => exact absurd hint (by simp [Value.ty?])

/-- If `Datum.word` is realized, it is a success, since it is never exhausted. -/
lemma exists_word {d : Datum bits} {R : BitVec bits → State bits → Prop}
    (h : Realizes M n s d.word R) : ∃ word, d.word = .ok word ∧ ∃ i, R word (run M s i) := by
  cases d with
  | atom word => exact ⟨word, rfl, h⟩
  | truth flag => exact ⟨_, rfl, h⟩
  | gate g => exact absurd h (fun h => h)

end Steps

/-! ## Arithmetic -/

lemma mem_all_of_find? {name : String} {builtin : Builtin}
    (known : Builtin.find? name = some builtin) : builtin ∈ Builtin.all ∧ builtin.name = name :=
  ⟨List.mem_of_find?_eq_some known, by simpa using List.find?_some known⟩

lemma arithmetic_unary (bits : Nat) {name : String} {builtin : Builtin} {constant : Int}
    (known : Builtin.find? name = some builtin) (implicit : builtin.constant = some constant) :
    ∃ f, arithmetic bits name = some f ∧
      ∀ a, f [a] = some (builtin.op.apply a (BitVec.ofInt bits constant)) := by
  obtain ⟨hmem, rfl⟩ := mem_all_of_find? known
  simp only [Builtin.all, List.mem_cons, List.not_mem_nil, or_false] at hmem
  rcases hmem with rfl | rfl | rfl | rfl
  · obtain rfl : 1 = constant := by simpa using implicit
    exact ⟨_, rfl, fun a => by simp [BinaryOp.apply]⟩
  all_goals simp at implicit

lemma arithmetic_binary (bits : Nat) {name : String} {builtin : Builtin}
    (known : Builtin.find? name = some builtin) (explicit : builtin.constant = none) :
    ∃ f, arithmetic bits name = some f ∧ ∀ a b, f [a, b] = some (builtin.op.apply a b) := by
  obtain ⟨hmem, rfl⟩ := mem_all_of_find? known
  simp only [Builtin.all, List.mem_cons, List.not_mem_nil, or_false] at hmem
  rcases hmem with rfl | rfl | rfl | rfl
  · simp at explicit
  all_goals exact ⟨_, rfl, fun a b => rfl⟩

lemma arithmetic_none (bits : Nat) {name : String} (unknown : Builtin.find? name = none) :
    arithmetic bits name = none := by
  unfold arithmetic
  split
  iterate 4 exact absurd unknown (by decide)
  rfl

end Lowering

end Runic
