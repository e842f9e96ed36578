import Mathlib.Data.List.Basic
import Mathlib.Logic.Relation
import Mathlib.Tactic.Common
import Runic.Ir.Render
import Runic.Proofs.Ir.Growth

/-!
# Typed code in static single assignment form

`Module.verify` looks at blocks, branches and calls, but at no operand.  This file says what it
means for the operands of a module to be right as well.

* `Function.Places`, `Function.Ends` — which instruction stands where, and which terminator.
* `Function.Route`, `Function.Dominates` — the ways from the first block to another one, and the
  blocks that lie on all of them.
* `Function.Provides` — an operand can be used at a place with a type: it is a number, a parameter
  of the function, or the result of an instruction that has been executed whenever the place is
  reached.  A function is never an operand.
* `Function.WellTyped` — every operand of a function is provided where it is used, with the type
  that its user asks for, and ids stand for one instruction each.
* `Module.Spelled` — every operand has a type and every operand, label and callee has a number or a
  symbol.

`Module.spelled_of_wellTyped` says that well-typed modules are spelled, and
`Module.spelled_iff_text` what this means for the text: no operand is printed as `undef` or behind
`ptr`.
-/

namespace Runic.Ir

namespace Function

variable (F : Function)

/-! ## Places and ways -/

/-- The instruction `inst` stands at the position `index` of the block `block`. -/
def Places (block : BlockId) (index : Nat) (inst : Inst) : Prop :=
  ∃ B, F.blocks[block]? = some B ∧ B.insts[index]? = some inst

/-- The block `block` ends with `terminator`, behind `index` instructions. -/
def Ends (block : BlockId) (index : Nat) (terminator : Terminator) : Prop :=
  ∃ B, F.blocks[block]? = some B ∧ B.insts.length = index ∧ B.terminator = some terminator

/-- The block `source` ends with a branch that has `target` as one of its targets. -/
def Branch (source target : BlockId) : Prop :=
  ∃ index cond yes no, F.Ends source index (.condBr cond yes no) ∧ (target = yes ∨ target = no)

/-- A route from the first block to a block along branches, with the blocks on it, the last one in
front. -/
inductive Route : BlockId → List BlockId → Prop
  | entry : Route 0 [0]
  | branch {source target : BlockId} {path : List BlockId} (way : Route source path)
      (edge : F.Branch source target) : Route target (target :: path)

/-- The block `block` can be reached, and every route to it passes through `above`. -/
def Dominates (above block : BlockId) : Prop :=
  (∃ path, F.Route block path) ∧ ∀ path, F.Route block path → above ∈ path

/-- Branches lead from the first block to the second one, in any number of steps. -/
def Reaches : BlockId → BlockId → Prop := Relation.ReflTransGen F.Branch

/-! ## Operands -/

/-- An operand can be used at a position of a block, with a type.  `above` relates the blocks whose
results are known to those in which they are. -/
inductive Provides (above : BlockId → BlockId → Prop) (block : BlockId) (index : Nat) :
    Value → Ty → Prop
  | const (ty : Ty) (number : Int) : Provides above block index (.const ty number) ty
  | param {ty : Ty} {name : String} (declared : ⟨name, ty⟩ ∈ F.params) :
      Provides above block index (.param ty name) ty
  | here {i : Nat} {inst : Inst} (placed : F.Places block i inst) (before : i < index) :
      Provides above block index (.inst inst.operation.ty inst.id) inst.operation.ty
  | above {b : BlockId} {i : Nat} {inst : Inst} (placed : F.Places b i inst) (other : b ≠ block)
      (known : above b block) :
      Provides above block index (.inst inst.operation.ty inst.id) inst.operation.ty

end Function

/-- The operands of an operation may be used with the right types, and a call has as many arguments
as its callee has parameters. -/
inductive Operation.Typed (m : Module) (atom : Ty) (use : Value → Ty → Prop) : Operation → Prop
  | binary {op : BinaryOp} {l r : Value} (left : use l atom) (right : use r atom) :
      Operation.Typed m atom use (.binary op atom l r)
  | icmpEq {l r : Value} (left : use l atom) (right : use r atom) :
      Operation.Typed m atom use (.icmpEq atom l r)
  | zext {v : Value} (truth : use v .bool) : Operation.Typed m atom use (.zext v atom)
  | call {callee : FuncId} {G : Function} {args : List Value}
      (known : m.functions[callee]? = some G) (count : args.length = G.params.length)
      (atoms : ∀ arg ∈ args, use arg atom) : Operation.Typed m atom use (.call callee atom args)

/-- The operand of a terminator may be used with the right type, and its targets are blocks of the
function. -/
inductive Terminator.Typed (F : Function) (atom : Ty) (use : Value → Ty → Prop) :
    Terminator → Prop
  | ret {v : Value} (value : use v atom) : Terminator.Typed F atom use (.ret v)
  | condBr {cond : Value} {yes no : BlockId} (truth : use cond .bool)
      (yesBlock : yes < F.blocks.length) (noBlock : no < F.blocks.length) :
      Terminator.Typed F atom use (.condBr cond yes no)

/-- The function takes and returns atoms, every id below the next one stands for one instruction,
and every operand is there where it is used. -/
structure Function.WellTyped (m : Module) (atom : Ty) (F : Function) : Prop where
  params_nodup : (F.params.map Param.name).Nodup
  params_ty : ∀ param ∈ F.params, param.ty = atom
  ret_ty : F.ret = atom
  defined : ∀ id, id < F.nextInst ↔ ∃ block index inst, F.Places block index inst ∧ inst.id = id
  once : ∀ {b b' i i' inst inst'}, F.Places b i inst → F.Places b' i' inst' → inst.id = inst'.id →
    b = b' ∧ i = i'
  operations : ∀ {block index inst}, F.Places block index inst →
    inst.operation.Typed m atom (F.Provides F.Dominates block index)
  terminators : ∀ block < F.blocks.length, ∃ index terminator, F.Ends block index terminator ∧
    terminator.Typed F atom (F.Provides F.Dominates block index)

/-! ## The text of typed code -/

/-- The operands of an operation, in the order in which they are printed. -/
def Operation.operands : Operation → List Value
  | .binary _ _ lhs rhs | .icmpEq _ lhs rhs => [lhs, rhs]
  | .zext value _ => [value]
  | .call _ _ args => args

/-- The operands of a terminator. -/
def Terminator.operands : Terminator → List Value
  | .ret value => [value]
  | .condBr cond _ _ => [cond]

/-- The operand has a type and, if it is a result, a number in the function. -/
def Value.Spelled (F : Function) (v : Value) : Prop :=
  v.ty?.isSome ∧ ∀ ty id, v = .inst ty id → (F.number? (.result id)).isSome

/-- The operands of the operation are spelled, and the function that it calls has a symbol. -/
def Operation.Spelled (m : Module) (F : Function) (op : Operation) : Prop :=
  (∀ v ∈ op.operands, v.Spelled F) ∧
    ∀ callee ret args, op = .call callee ret args → (m.functions[callee]?).isSome

/-- The operands of the terminator are spelled, and its targets have labels. -/
def Terminator.Spelled (F : Function) (t : Terminator) : Prop :=
  (∀ v ∈ t.operands, v.Spelled F) ∧ ∀ cond yes no, t = .condBr cond yes no →
    (F.number? (.label yes)).isSome ∧ (F.number? (.label no)).isSome

/-- Every operand, label and symbol in the text of the module is spelled, so that no `undef` has to
stand in for one. -/
def Module.Spelled (m : Module) : Prop :=
  ∀ F ∈ m.functions, ∀ B ∈ F.blocks, (∀ inst ∈ B.insts, inst.operation.Spelled m F) ∧
    ∀ t ∈ B.terminator, t.Spelled F

namespace Function

variable {F : Function}

lemma mem_numbering_label {block : BlockId} (h : block < F.blocks.length) :
    .label block ∈ F.numbering := by
  simp only [numbering, List.mem_flatMap, Prod.exists, List.mk_mem_zipIdx_iff_getElem?]
  exact ⟨_, block, List.getElem?_eq_getElem h, List.mem_cons_self⟩

lemma mem_numbering_result {block : BlockId} {index : Nat} {inst : Inst}
    (h : F.Places block index inst) : .result inst.id ∈ F.numbering := by
  obtain ⟨B, hB, hi⟩ := h
  simp only [numbering, List.mem_flatMap, Prod.exists, List.mk_mem_zipIdx_iff_getElem?]
  refine ⟨B, block, hB, List.mem_cons_of_mem _ ?_⟩
  exact List.mem_map.2 ⟨inst, List.mem_of_getElem? hi, rfl⟩

lemma number?_isSome {item : Numbered} (h : item ∈ F.numbering) : (F.number? item).isSome := by
  obtain ⟨n, hn⟩ := List.mem_iff_getElem?.1 h
  have hmem : (item, n) ∈ F.numbering.zipIdx.reverse := by
    rwa [List.mem_reverse, List.mk_mem_zipIdx_iff_getElem?]
  rw [number?, List.lookup_isSome_iff]
  exact ⟨_, hmem, beq_self_eq_true item⟩

lemma Provides.spelled {above : BlockId → BlockId → Prop} {block : BlockId} {index : Nat}
    {v : Value} {ty : Ty} (h : F.Provides above block index v ty) : v.Spelled F := by
  cases h with
  | const ty number => exact ⟨rfl, by simp⟩
  | param declared => exact ⟨rfl, by simp⟩
  | here placed _ | above placed _ _ =>
      refine ⟨rfl, ?_⟩
      rintro _ _ ⟨⟩
      exact number?_isSome (mem_numbering_result placed)

end Function

lemma Operation.Typed.spelled {m : Module} {F : Function} {atom : Ty} {use : Value → Ty → Prop}
    {op : Operation} (h : op.Typed m atom use) (hu : ∀ v ty, use v ty → v.Spelled F) :
    op.Spelled m F := by
  cases h with
  | binary left right | icmpEq left right =>
      refine ⟨?_, by simp⟩
      simpa [Operation.operands] using ⟨hu _ _ left, hu _ _ right⟩
  | zext truth =>
      refine ⟨?_, by simp⟩
      simpa [Operation.operands] using hu _ _ truth
  | call known _ atoms =>
      refine ⟨fun v hv => hu _ _ (atoms v hv), ?_⟩
      rintro _ _ _ ⟨⟩
      simp [known]

lemma Terminator.Typed.spelled {F : Function} {atom : Ty} {use : Value → Ty → Prop}
    {t : Terminator} (h : t.Typed F atom use) (hu : ∀ v ty, use v ty → v.Spelled F) :
    t.Spelled F := by
  cases h with
  | ret value =>
      refine ⟨?_, by simp⟩
      simpa [Terminator.operands] using hu _ _ value
  | condBr truth yesBlock noBlock =>
      refine ⟨by simpa [Terminator.operands] using hu _ _ truth, ?_⟩
      rintro _ _ _ ⟨⟩
      exact ⟨Function.number?_isSome (Function.mem_numbering_label yesBlock),
        Function.number?_isSome (Function.mem_numbering_label noBlock)⟩

/-- A module of functions that are `WellTyped` is `Spelled`. -/
lemma Module.spelled_of_wellTyped {m : Module} {atom : Ty}
    (h : ∀ F ∈ m.functions, F.WellTyped m atom) : m.Spelled := by
  intro F hF B hB
  have ht := h F hF
  obtain ⟨block, hB⟩ := List.mem_iff_getElem?.1 hB
  constructor
  · intro inst hinst
    obtain ⟨index, hi⟩ := List.mem_iff_getElem?.1 hinst
    exact (ht.operations ⟨B, hB, hi⟩).spelled fun _ _ => Function.Provides.spelled
  · intro t hend
    obtain ⟨index, t', ⟨B', hB', _, ht'⟩, typed⟩ :=
      ht.terminators block (List.getElem?_eq_some_iff.1 hB).1
    rw [hB, Option.some.injEq] at hB'
    subst hB'
    rw [Option.mem_def, ht', Option.some.injEq] at hend
    subst hend
    exact typed.spelled fun _ _ => Function.Provides.spelled

/-! ## What stands in the text -/

/-- An operand is printed as itself and behind its type, not as `undef` and not behind `ptr`. -/
def Value.IsPrinted (m : Module) (F : Function) (v : Value) : Prop :=
  v.text m F ≠ "undef" ∧ ∃ ty : Ty, v.typedText m F = s!"{ty.text} {v.text m F}"

/-- The first letter of `undef` is no sign of a number. -/
lemma toString_int_ne_undef (n : Int) : toString n ≠ "undef" := by
  intro h
  have hletter : 'u' ∈ (toString n).toList := by simp [h]
  cases n with
  | ofNat n =>
      have htext : toString (Int.ofNat n) = n.repr := rfl
      rw [htext, Nat.toList_repr] at hletter
      cases Nat.isDigit_of_mem_toDigits (by decide) (by decide) hletter
  | negSucc n =>
      have htext : toString (Int.negSucc n) = "-" ++ (n + 1).repr := rfl
      rw [htext, String.toList_append, Nat.toList_repr] at hletter
      rcases List.mem_append.1 hletter with hletter | hletter
      · simp at hletter
      · cases Nat.isDigit_of_mem_toDigits (by decide) (by decide) hletter

/-- A text that starts with a sign is not `undef`. -/
lemma append_ne_undef {sign : String} {c : Char} (hsign : sign.toList = [c]) (hc : c ≠ 'u')
    (text : String) : sign ++ text ≠ "undef" := by
  intro h
  have hhead := congrArg (·.toList.head?) h
  rw [String.toList_append, hsign] at hhead
  exact hc (Option.some.inj hhead)

lemma Function.symbol_eq (G : Function) : ∃ text, G.symbol = "@" ++ text := by
  unfold symbol
  cases G.linkage with
  | entry name => exact ⟨quoteName name, rfl⟩
  | internal number => exact ⟨toString number, rfl⟩

lemma Function.numberText_ne_undef_iff {F : Function} {item : Numbered} :
    F.numberText item ≠ "undef" ↔ (F.number? item).isSome := by
  unfold numberText
  cases F.number? item with
  | none => simp
  | some n =>
      have htext : s!"%{n}" = "%" ++ toString n := rfl
      simpa [htext] using append_ne_undef rfl (by decide) (toString n)

/-- A type starts with an `i`, so what stands behind a type does not stand behind `ptr`. -/
lemma Ty.text_append_ne_ptr (ty : Ty) (text : String) :
    ty.text ++ " " ++ text ≠ "ptr " ++ text := by
  intro h
  have hty : ∃ rest, ty.text.toList = 'i' :: rest := by
    cases ty with
    | int bits =>
        have htext : (Ty.int bits).text = "i" ++ toString bits := rfl
        exact ⟨_, by rw [htext, String.toList_append]; rfl⟩
    | bool => exact ⟨_, rfl⟩
  obtain ⟨rest, hrest⟩ := hty
  have hhead := congrArg (·.toList.head?) h
  simp [hrest] at hhead

/-- An operand is `Spelled` exactly if it is printed as itself and behind its type. -/
lemma Value.spelled_iff_isPrinted (m : Module) {F : Function} {v : Value} :
    v.Spelled F ↔ v.IsPrinted m F := by
  cases v with
  | const ty n => exact iff_of_true ⟨rfl, by simp⟩ ⟨toString_int_ne_undef n, ty, rfl⟩
  | param ty name =>
      refine iff_of_true ⟨rfl, by simp⟩ ⟨?_, ty, rfl⟩
      exact append_ne_undef rfl (by decide) (quoteName name)
  | inst ty id =>
      constructor
      · exact fun h => ⟨Function.numberText_ne_undef_iff.2 (h.2 ty id rfl), ty, rfl⟩
      · rintro ⟨hundef, -⟩
        refine ⟨rfl, ?_⟩
        rintro _ _ ⟨⟩
        exact Function.numberText_ne_undef_iff.1 hundef
  | func id =>
      refine iff_of_false (fun h => by cases h.1) ?_
      rintro ⟨-, ty, hptr⟩
      exact ty.text_append_ne_ptr _ hptr.symm

/-- A call prints a symbol exactly if its callee is a function of the module. -/
lemma Module.calleeText_ne_empty_iff {m : Module} {id : FuncId} :
    m.calleeText id ≠ "" ↔ (m.functions[id]?).isSome := by
  unfold calleeText
  cases m.functions[id]? with
  | none => simp
  | some G =>
      obtain ⟨text, htext⟩ := G.symbol_eq
      simp [htext]

/-- **No operand of a spelled module is printed as `undef` or behind `ptr`.**  A module is `Spelled`
exactly if every operand in its text is printed as itself and behind its type, every branch names
labels and every call a symbol. -/
theorem Module.spelled_iff_text {m : Module} :
    m.Spelled ↔ ∀ F ∈ m.functions, ∀ B ∈ F.blocks,
      (∀ inst ∈ B.insts, (∀ v ∈ inst.operation.operands, v.IsPrinted m F) ∧
        ∀ callee ret args, inst.operation = .call callee ret args → m.calleeText callee ≠ "") ∧
      ∀ t ∈ B.terminator, (∀ v ∈ t.operands, v.IsPrinted m F) ∧
        ∀ cond yes no, t = .condBr cond yes no →
          F.numberText (.label yes) ≠ "undef" ∧ F.numberText (.label no) ≠ "undef" := by
  simp only [Spelled, Operation.Spelled, Terminator.Spelled, Value.spelled_iff_isPrinted m,
    calleeText_ne_empty_iff, Function.numberText_ne_undef_iff]

end Runic.Ir
