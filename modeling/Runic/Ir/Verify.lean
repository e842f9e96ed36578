import Runic.Ir.Builder

/-!
# Checking modules

A module is well formed if every function has a block, every block a terminator, every branch goes
to blocks of its function and every call to a function of the module.  `Module.fault?` is the
first violation in the order of the text.
-/

namespace Runic.Ir

/-- The fault of an instruction that calls a function which is not in the module. -/
def Inst.fault? (module : Module) (inst : Inst) : Option IrFault :=
  match inst.operation with
  | .call callee _ _ =>
    if callee < module.functions.length then none else some (.unknownFunction callee)
  | _ => none

/-- The fault of a block without a terminator, or with a branch to a block that is not in the
function. -/
def Function.terminatorFault? (function : Function) (block : Block) (index : Nat) :
    Option IrFault :=
  match block.terminator with
  | none => some (.noTerminator index function.symbol)
  | some (.condBr _ yes no) =>
    if yes < function.blocks.length ∧ no < function.blocks.length then none
    else some (.missingTarget index function.symbol)
  | some (.ret _) => none

/-- The first fault in a function: it has no blocks, or a block of it has a fault. -/
def Function.fault? (module : Module) (function : Function) : Option IrFault :=
  if function.blocks = [] then some (.noBlocks function.symbol)
  else
    function.blocks.zipIdx.findSome? fun (block, index) =>
      (function.terminatorFault? block index).or (block.insts.findSome? (·.fault? module))

namespace Module

/-- The first fault in a module, function by function. -/
def fault? (module : Module) : Option IrFault :=
  module.functions.findSome? (·.fault? module)

/-- Accept a module without faults. -/
def verify (module : Module) : Except Error Unit :=
  match module.fault? with
  | some fault => .error (.ir fault)
  | none => .ok ()

end Module

end Runic.Ir
