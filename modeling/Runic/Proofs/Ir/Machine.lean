import Mathlib.Logic.Function.Iterate
import Mathlib.Tactic.Common
import Runic.Ir.Basic

/-!
# Running modules

A machine for modules whose atoms have a width.  It goes through the instructions of a block one by
one.  A call puts the frame of the caller aside until the callee returns, and a return from the
entry function ends the run.

* `Machine.step` — one step.  What has halted stays so, and an instruction that has no meaning
  (an operand that is not there or of another type, a callee that is not there) leads to `stuck`.
* `Module.Returns` — the module returns a word, after however many steps.

The machine is deterministic and never leaves its end (`end_unique`), and a run that
is busy after many steps was busy after fewer (`busy_of_le`).
-/

namespace Runic.Ir

/-- The operation on words of `bits` bits, modulo two to the power of `bits`. -/
def BinaryOp.apply {bits : Nat} : BinaryOp → BitVec bits → BitVec bits → BitVec bits
  | .add, a, b => a + b
  | .sub, a, b => a - b
  | .mul, a, b => a * b

/-- A truth value as a word: one or zero. -/
def wordOfBool (bits : Nat) (flag : Bool) : BitVec bits := if flag then 1 else 0

namespace Machine

/-- What a register holds. -/
inductive Scalar (bits : Nat) where
  | word (word : BitVec bits)
  | flag (flag : Bool)
deriving DecidableEq

/-- A function in the middle of its execution: where it is, its arguments and the results so far. -/
structure Frame (bits : Nat) where
  func : FuncId
  block : BlockId
  /-- The position of the next instruction in the block. -/
  index : Nat
  /-- The arguments, by the names of the parameters. -/
  args : List (String × BitVec bits)
  /-- The results of the instructions that have been executed. -/
  results : InstId → Option (Scalar bits)

/-- The machine is in the middle of a run, at its end, or where nothing can be done. -/
inductive State (bits : Nat) where
  /-- A frame, and the callers that wait, each for the result of a call. -/
  | running (frame : Frame bits) (callers : List (Frame bits × InstId))
  | halted (word : BitVec bits)
  | stuck

variable {bits : Nat}

namespace Frame

/-- The frame at the beginning of the function `func`, with its parameters bound to `args`. -/
def enter (func : FuncId) (params : List Param) (args : List (BitVec bits)) : Frame bits :=
  ⟨func, 0, 0, (params.map Param.name).zip args, fun _ => none⟩

/-- The frame behind an instruction with the id `id`, whose result is stored. -/
def store (frame : Frame bits) (id : InstId) (scalar : Scalar bits) : Frame bits :=
  { frame with
    index := frame.index + 1
    results := fun other => if other = id then some scalar else frame.results other }

/-- The frame at the beginning of the block `block`. -/
def jump (frame : Frame bits) (block : BlockId) : Frame bits := { frame with block, index := 0 }

/-- The word or truth value that an operand has in a frame.  It has none if it is not defined there,
or has the wrong type. -/
def operand (frame : Frame bits) : Value → Option (Scalar bits)
  | .const ty number => if ty = .int bits then some (.word (BitVec.ofInt bits number)) else none
  | .param _ name => (frame.args.lookup name).map .word
  | .inst _ id => frame.results id
  | .func _ => none

/-- The word of an operand. -/
def word (frame : Frame bits) (value : Value) : Option (BitVec bits) :=
  match frame.operand value with
  | some (.word word) => some word
  | _ => none

/-- The truth value of an operand. -/
def flag (frame : Frame bits) (value : Value) : Option Bool :=
  match frame.operand value with
  | some (.flag flag) => some flag
  | _ => none

/-- The result of an operation that is no call, if its operands have values of the right types. -/
def compute (frame : Frame bits) : Operation → Option (Scalar bits)
  | .binary op ty lhs rhs =>
    if ty = .int bits then do
      let lhs ← frame.word lhs
      let rhs ← frame.word rhs
      return .word (op.apply lhs rhs)
    else none
  | .icmpEq ty lhs rhs =>
    if ty = .int bits then do
      let lhs ← frame.word lhs
      let rhs ← frame.word rhs
      return .flag (lhs == rhs)
    else none
  | .zext value ty =>
    if ty = .int bits then do
      let flag ← frame.flag value
      return .word (wordOfBool bits flag)
    else none
  | .call _ _ _ => none

end Frame

/-- Return a word to the caller that waits for it, or end the run with it. -/
def resume (word : BitVec bits) : List (Frame bits × InstId) → State bits
  | [] => .halted word
  | (frame, id) :: callers => .running (frame.store id (.word word)) callers

/-- Execute the instruction `inst`: enter the function that it calls, or store its result.  The
machine is stuck if an operand has no value. -/
def execute (m : Module) (frame : Frame bits) (callers : List (Frame bits × InstId))
    (inst : Inst) : State bits :=
  match inst.operation with
  | .call callee _ args =>
    match m.functions[callee]?, args.mapM frame.word with
    | some function, some words =>
      if words.length = function.params.length then
        .running (.enter callee function.params words) ((frame, inst.id) :: callers)
      else .stuck
    | _, _ => .stuck
  | operation =>
    match frame.compute operation with
    | some scalar => .running (frame.store inst.id scalar) callers
    | none => .stuck

/-- Execute the end of a block: return, or jump to one of the two blocks. -/
def leave (frame : Frame bits) (callers : List (Frame bits × InstId)) : Terminator → State bits
  | .ret value =>
    match frame.word value with
    | some word => resume word callers
    | none => .stuck
  | .condBr cond yes no =>
    match frame.flag cond with
    | some flag => .running (frame.jump (if flag then yes else no)) callers
    | none => .stuck

/-- One step of the machine: the next instruction of the block, or its terminator behind the last
one. -/
def step (m : Module) : State bits → State bits
  | .running frame callers =>
    match (m.functions[frame.func]?).bind (·.blocks[frame.block]?) with
    | none => .stuck
    | some block =>
      match block.insts[frame.index]?, block.terminator with
      | some inst, _ => execute m frame callers inst
      | none, some terminator => leave frame callers terminator
      | none, none => .stuck
  | state => state

/-- The state after `steps` steps. -/
def run (m : Module) (state : State bits) (steps : Nat) : State bits := (step m)^[steps] state

/-- The function is exported. -/
def isEntry (function : Function) : Bool :=
  match function.linkage with
  | .entry _ => true
  | .internal _ => false

/-- The state at the beginning of the exported function. -/
def start (m : Module) : State bits :=
  match m.functions.findIdx? isEntry with
  | some func => .running (.enter func [] []) []
  | none => .stuck

end Machine

/-- The exported function of the module returns `word` after some number of steps. -/
def Module.Returns {bits : Nat} (m : Module) (word : BitVec bits) : Prop :=
  ∃ steps, Machine.run m (Machine.start m) steps = .halted word

namespace Machine

variable {bits : Nat} {m : Module} {s : State bits}

/-! ## Operations -/

namespace Frame

variable {frame : Frame bits} {l r v : Value} {a b : BitVec bits} {ty : Ty}

lemma compute_binary {op : BinaryOp} (hty : ty = .int bits) (hl : frame.word l = some a)
    (hr : frame.word r = some b) :
    frame.compute (.binary op ty l r) = some (.word (op.apply a b)) := by
  simp [compute, hty, hl, hr]

lemma compute_icmpEq (hty : ty = .int bits) (hl : frame.word l = some a)
    (hr : frame.word r = some b) : frame.compute (.icmpEq ty l r) = some (.flag (a == b)) := by
  simp [compute, hty, hl, hr]

lemma compute_zext {flag : Bool} (hty : ty = .int bits) (hv : frame.flag v = some flag) :
    frame.compute (.zext v ty) = some (.word (wordOfBool bits flag)) := by
  simp [compute, hty, hv]

lemma word_const (hty : ty = .int bits) (number : Int) :
    frame.word (.const ty number) = some (BitVec.ofInt bits number) := by
  simp [word, operand, hty]

end Frame

/-! ## Runs -/

/-- The run has neither returned nor got stuck. -/
def State.Busy : State bits → Prop
  | .running _ _ => True
  | .halted _ | .stuck => False

lemma run_add (m : Module) (s : State bits) (i j : Nat) :
    run m s (i + j) = run m (run m s i) j := by
  rw [Nat.add_comm, run, Function.iterate_add_apply]
  rfl

lemma run_succ (m : Module) (s : State bits) (n : Nat) : run m s (n + 1) = step m (run m s n) :=
  Function.iterate_succ_apply' _ _ _

lemma run_of_not_busy (h : ¬ s.Busy) (n : Nat) : run m s n = s := by
  have hfix : step m s = s := by
    cases s with
    | running frame callers => exact absurd trivial h
    | halted word | stuck => rfl
  exact Function.iterate_fixed hfix n

/-- If the machine is still busy after `j` steps, it was after `i ≤ j` steps. -/
lemma busy_of_le {i j : Nat} (hij : i ≤ j) (h : (run m s j).Busy) : (run m s i).Busy := by
  by_contra hi
  obtain ⟨d, rfl⟩ := Nat.exists_eq_add_of_le hij
  rw [run_add, run_of_not_busy hi] at h
  exact hi h

/-- A run that comes to an end after `i` and after `j` steps comes to the same end. -/
lemma end_unique {i j : Nat} {e e' : State bits} (hi : run m s i = e) (hj : run m s j = e')
    (he : ¬ e.Busy) (he' : ¬ e'.Busy) : e = e' := by
  have hstay : ∀ {k l : Nat} {t : State bits}, run m s k = t → ¬ t.Busy → k ≤ l →
      run m s l = t := by
    rintro k l t rfl ht hkl
    obtain ⟨d, rfl⟩ := Nat.exists_eq_add_of_le hkl
    rw [run_add, run_of_not_busy ht]
  exact (hstay hi he (Nat.le_max_left i j)).symm.trans (hstay hj he' (Nat.le_max_right i j))

lemma not_busy_halted (word : BitVec bits) : ¬ (State.halted word).Busy := fun h => h

lemma not_busy_stuck : ¬ (State.stuck : State bits).Busy := fun h => h

end Machine

end Runic.Ir
