import Mathlib.Data.List.Basic
import Mathlib.Tactic.Common
import Runic.Ir.Verify
import Runic.Proofs.Attempt

/-!
# Integers of another width

`Module.resize` replaces the integers of one width by those of another throughout a module, and
leaves everything else as it is.  Building does not look at widths, so what is built of resized
parts is what was built, resized.

* `tracks_onFunction` and the lemmas behind it — every step of the builder commutes with resizing.
* `verify_resize` — a resized module has the faults that it had.
-/

namespace Runic.Ir

/-! ## Resizing -/

/-- Integers of the width `w` as integers of the width `w'`. -/
def Ty.resize (w w' : Nat) : Ty → Ty
  | int bits => int (if bits = w then w' else bits)
  | bool => bool

def Value.resize (w w' : Nat) : Value → Value
  | const ty value => const (ty.resize w w') value
  | param ty name => param (ty.resize w w') name
  | inst ty id => inst (ty.resize w w') id
  | func id => func id

def Operation.resize (w w' : Nat) : Operation → Operation
  | binary op ty lhs rhs => binary op (ty.resize w w') (lhs.resize w w') (rhs.resize w w')
  | icmpEq ty lhs rhs => icmpEq (ty.resize w w') (lhs.resize w w') (rhs.resize w w')
  | zext value ty => zext (value.resize w w') (ty.resize w w')
  | call callee ret args => call callee (ret.resize w w') (args.map (Value.resize w w'))

def Inst.resize (w w' : Nat) (inst : Inst) : Inst := ⟨inst.id, inst.operation.resize w w'⟩

def Terminator.resize (w w' : Nat) : Terminator → Terminator
  | ret value => ret (value.resize w w')
  | condBr cond yes no => condBr (cond.resize w w') yes no

def Block.resize (w w' : Nat) (B : Block) : Block :=
  ⟨B.insts.map (Inst.resize w w'), B.terminator.map (Terminator.resize w w')⟩

def Param.resize (w w' : Nat) (param : Param) : Param := ⟨param.name, param.ty.resize w w'⟩

def Function.resize (w w' : Nat) (F : Function) : Function where
  linkage := F.linkage
  params := F.params.map (Param.resize w w')
  ret := F.ret.resize w w'
  blocks := F.blocks.map (Block.resize w w')
  nextInst := F.nextInst

/-- The module with integers of the width `w'` for those of the width `w`. -/
def Module.resize (w w' : Nat) (m : Module) : Module :=
  ⟨m.functions.map (Function.resize w w'), m.nextInternal⟩

variable {w w' : Nat}

@[simp] lemma Ty.resize_self : (int w).resize w w' = int w' := by
  rw [resize, if_pos rfl]

lemma Value.ty?_resize (v : Value) : (v.resize w w').ty? = v.ty?.map (Ty.resize w w') := by
  cases v <;> rfl

lemma Value.func?_resize (v : Value) : (v.resize w w').func? = v.func? := by
  cases v <;> rfl

/-- A value of the type `bool` stays one under `resize`, and no other becomes one. -/
lemma Value.ty?_resize_eq_bool {v : Value} :
    (v.resize w w').ty? = some .bool ↔ v.ty? = some .bool := by
  rw [ty?_resize]
  rcases v.ty? with _ | _ | _ <;> simp [Ty.resize]

lemma Operation.ty_resize (op : Operation) : (op.resize w w').ty = op.ty.resize w w' := by
  cases op <;> rfl

/-! ## Building -/

/-- Mapping `f` over a list that is modified by `change` is modifying the mapped list by `change'`,
if `f` turns the one into the other. -/
lemma map_modify {α β : Type} {f : α → β} {change : α → α} {change' : β → β}
    (h : ∀ a, f (change a) = change' (f a)) (as : List α) (i : Nat) :
    (as.modify i change).map f = (as.map f).modify i change' := by
  refine List.ext_getElem? fun j => ?_
  simp only [List.getElem?_map, List.getElem?_modify]
  split
  · cases as[j]? <;> simp [h]
  · cases as[j]? <;> rfl

variable {excused : Error → Prop}

namespace Function

lemma checkOpen_resize (F : Function) (b : BlockId) :
    (F.resize w w').checkOpen b = F.checkOpen b := by
  simp only [checkOpen, resize, List.getElem?_map, List.length_map]
  cases F.blocks[b]? with
  | none => rfl
  | some B => simp [Block.resize]

lemma tracks_addBlock : Attempt.Tracks excused (resize w w') id addBlock addBlock := by
  refine fun F => .inr ?_
  simp [addBlock, resize, Block.empty, Block.resize, Except.map]

lemma tracks_append (b : BlockId) (op : Operation) :
    Attempt.Tracks excused (resize w w') (Value.resize w w') (append b op)
      (append b (op.resize w w')) := by
  refine fun F => .inr ?_
  have hopen : Function.checkOpen { F.resize w w' with nextInst := F.nextInst + 1 } b =
      Function.checkOpen { F with nextInst := F.nextInst + 1 } b :=
    checkOpen_resize { F with nextInst := F.nextInst + 1 } b
  unfold append
  dsimp only
  rw [show (F.resize w w').nextInst = F.nextInst from rfl, hopen]
  cases checkOpen { F with nextInst := F.nextInst + 1 } b with
  | error e => rfl
  | ok _ =>
      simp only [resize, Except.map, Operation.ty_resize, Value.resize]
      refine congrArg (Prod.mk _) (congrArg (Function.mk _ _ _ · _) ?_)
      refine (map_modify (fun B => ?_) F.blocks b).symm
      simp [Block.resize, Inst.resize]

lemma tracks_terminate (b : BlockId) (t : Terminator) :
    Attempt.Tracks excused (resize w w') id (terminate b t) (terminate b (t.resize w w')) := by
  refine fun F => .inr ?_
  unfold terminate
  dsimp only
  rw [checkOpen_resize]
  cases F.checkOpen b with
  | error e => rfl
  | ok _ =>
      simp only [resize, Except.map, id]
      refine congrArg (Prod.mk _) (congrArg (Function.mk _ _ _ · _) ?_)
      refine (map_modify (fun B => ?_) F.blocks b).symm
      rfl

end Function

namespace Build

/-- A change to a function of a module tracks its resized counterpart in the resized module. -/
lemma tracks_onFunction {α β : Type} {result : α → β} {change : Attempt Function Error α}
    {change' : Attempt Function Error β}
    (h : Attempt.Tracks excused (Function.resize w w') result change change') (id : FuncId) :
    Attempt.Tracks excused (Module.resize w w') result (onFunction id change)
      (onFunction id change') := by
  intro m
  unfold onFunction
  dsimp only [Module.resize]
  rw [List.getElem?_map]
  cases m.functions[id]? with
  | none => exact .inr rfl
  | some F =>
      refine (h F).imp_right fun hF => ?_
      simp only [Option.map_some, hF, List.map_set]

lemma tracks_addBlock (func : FuncId) :
    Attempt.Tracks excused (Module.resize w w') id (addBlock func) (addBlock func) :=
  tracks_onFunction Function.tracks_addBlock func

lemma tracks_append (func : FuncId) (block : BlockId) (op : Operation) :
    Attempt.Tracks excused (Module.resize w w') (Value.resize w w') (append func block op)
      (append func block (op.resize w w')) :=
  tracks_onFunction (Function.tracks_append block op) func

lemma tracks_terminate (func : FuncId) (block : BlockId) (t : Terminator) :
    Attempt.Tracks excused (Module.resize w w') id (terminate func block t)
      (terminate func block (t.resize w w')) :=
  tracks_onFunction (Function.tracks_terminate block t) func

lemma tracks_declare (F : Function) :
    Attempt.Tracks excused (Module.resize w w') id (declare F) (declare (F.resize w w')) := by
  refine fun m => .inr ?_
  simp [declare, Module.resize, Except.map]

lemma tracks_addEntry (name : String) (ret : Ty) :
    Attempt.Tracks excused (Module.resize w w') id (addEntry name ret)
      (addEntry name (ret.resize w w')) :=
  tracks_declare _

lemma tracks_addInternal (params : List Param) (ret : Ty) :
    Attempt.Tracks excused (Module.resize w w') id (addInternal params ret)
      (addInternal (params.map (Param.resize w w')) (ret.resize w w')) := by
  refine fun m => .inr ?_
  simp [addInternal, declare, Attempt.bind_apply, Module.resize, Function.declare,
    Function.resize, Except.map]

lemma tracks_function (id : FuncId) :
    Attempt.Tracks excused (Module.resize w w') (Function.resize w w') (function id)
      (function id) := by
  refine fun m => .inr ?_
  simp only [function, Attempt.bind_apply, Attempt.get_apply, Module.function, Module.resize,
    List.getElem?_map]
  cases m.functions[id]? <;> rfl

end Build

/-! ## Checking -/

lemma Inst.fault?_resize (m : Module) (inst : Inst) :
    (inst.resize w w').fault? (m.resize w w') = inst.fault? m := by
  unfold fault?
  cases hop : inst.operation <;> simp [Inst.resize, Operation.resize, Module.resize, hop]

lemma Function.terminatorFault?_resize (F : Function) (B : Block) (index : Nat) :
    (F.resize w w').terminatorFault? (B.resize w w') index = F.terminatorFault? B index := by
  unfold terminatorFault?
  rcases hterminator : B.terminator with _ | _ | _
  all_goals simp [Block.resize, Terminator.resize, Function.resize, symbol, hterminator]

lemma Function.fault?_resize (m : Module) (F : Function) :
    (F.resize w w').fault? (m.resize w w') = F.fault? m := by
  have hblock : ∀ p : Block × Nat, ((F.resize w w').terminatorFault? (p.1.resize w w') p.2).or
      ((p.1.resize w w').insts.findSome? (·.fault? (m.resize w w'))) =
        (F.terminatorFault? p.1 p.2).or (p.1.insts.findSome? (·.fault? m)) := by
    intro p
    rw [terminatorFault?_resize, Block.resize, List.findSome?_map]
    simp only [Function.comp_def, Inst.fault?_resize]
  unfold fault?
  rw [show (F.resize w w').blocks = F.blocks.map (Block.resize w w') from rfl, List.zipIdx_map,
    List.findSome?_map]
  simp only [List.map_eq_nil_iff, Function.comp_def, Prod.map, id, hblock]
  rfl

/-- A resized module passes `verify` exactly if the module does, and has the same fault
otherwise. -/
theorem Module.verify_resize (m : Module) : (m.resize w w').verify = m.verify := by
  have hfault : (m.resize w w').fault? = m.fault? := by
    rw [fault?, fault?, show (m.resize w w').functions = m.functions.map (Function.resize w w')
      from rfl, List.findSome?_map]
    simp only [Function.comp_def, Function.fault?_resize]
  rw [verify, verify, hfault]

end Runic.Ir
