import Runic.Attempt
import Runic.Error
import Runic.Ir.Basic

/-!
# Building modules

A module grows by declaring functions, opening blocks and appending to them.  Appending is refused
to a block that does not exist or is already closed; a refusal leaves the module as it was, except
that the id meant for the instruction is gone.

`Build` is the type of the changes to a module.
-/

namespace Runic.Ir

namespace Function

/-- The block with the id `block` exists and is not closed. -/
def checkOpen (function : Function) (block : BlockId) : Except Error Unit :=
  match function.blocks[block]? with
  | none => .error (.ir (.missingBlock block function.blocks.length))
  | some found => if found.terminator.isSome then .error (.ir .terminated) else .ok ()

/-- Open a block behind the others and return its id. -/
def addBlock : Attempt Function Error BlockId := fun function =>
  (.ok function.blocks.length, { function with blocks := function.blocks ++ [Block.empty] })

/-- Append an operation to a block and return its result as an operand.  A refused operation still
uses up an id. -/
def append (block : BlockId) (operation : Operation) : Attempt Function Error Value :=
  fun function =>
    let id := function.nextInst
    let function := { function with nextInst := id + 1 }
    match function.checkOpen block with
    | .error error => (.error error, function)
    | .ok () =>
      let push := fun (b : Block) => { b with insts := b.insts ++ [⟨id, operation⟩] }
      (.ok (.inst operation.ty id), { function with blocks := function.blocks.modify block push })

/-- Close a block with `terminator`.  A block is closed only once. -/
def terminate (block : BlockId) (terminator : Terminator) : Attempt Function Error Unit :=
  fun function =>
    match function.checkOpen block with
    | .error error => (.error error, function)
    | .ok () =>
      let close := fun (b : Block) => { b with terminator := some terminator }
      (.ok (), { function with blocks := function.blocks.modify block close })

end Function

/-- The function with the id `id`, or the error that there is none. -/
def Module.function (module : Module) (id : FuncId) : Except Error Function :=
  match module.functions[id]? with
  | some function => .ok function
  | none => .error (.ir (.unknownFunction id))

/-- A change to a module, which keeps what it has done when it fails. -/
abbrev Build (α : Type) : Type := Attempt Module Error α

namespace Build

/-- Declare `function` behind the others and return its id. -/
def declare (function : Function) : Build FuncId := fun module =>
  (.ok module.functions.length, { module with functions := module.functions ++ [function] })

/-- Declare an exported function without parameters, under `name`. -/
def addEntry (name : String) (ret : Ty) : Build FuncId :=
  declare (.declare (.entry name) [] ret)

/-- Declare an internal function.  Internal functions are numbered in the order of declaration. -/
def addInternal (params : List Param) (ret : Ty) : Build FuncId := do
  let number := (← Attempt.get).nextInternal
  Attempt.modify fun module => { module with nextInternal := number + 1 }
  declare (.declare (.internal number) params ret)

/-- Return the function with the id `id`. -/
def function (id : FuncId) : Build Function := do
  let module ← Attempt.get
  Attempt.ofExcept (module.function id)

/-- Run `change` on the function with the id `id`. -/
def onFunction {α : Type} (id : FuncId) (change : Attempt Function Error α) : Build α :=
  fun module =>
    match module.functions[id]? with
    | none => (.error (.ir (.unknownFunction id)), module)
    | some function =>
      let (outcome, changed) := change function
      (outcome, { module with functions := module.functions.set id changed })

/-- Open a block of a function, as `Function.addBlock`. -/
def addBlock (func : FuncId) : Build BlockId := onFunction func Function.addBlock

/-- Append an operation to a block of a function, as `Function.append`. -/
def append (func : FuncId) (block : BlockId) (operation : Operation) : Build Value :=
  onFunction func (Function.append block operation)

/-- Close a block of a function, as `Function.terminate`. -/
def terminate (func : FuncId) (block : BlockId) (terminator : Terminator) : Build Unit :=
  onFunction func (Function.terminate block terminator)

end Build

end Runic.Ir
